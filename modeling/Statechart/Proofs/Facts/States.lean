import Statechart.Facts
import Statechart.Proofs.Graph.Arrows
import Statechart.Proofs.Graph.Preorder

/-!
# Facts in the shape of the definition

What is reported of the states is a tree of its own, built from numbers down to a height. Main
statement: it has the shape of the definition, so following the keys of a node leads to the facts of
that node, and its paths in preorder are the reported ones.
-/

namespace Statechart

/-! ## 1. Keys and paths in a tree of facts -/

namespace StateFacts

/-- The facts at the end of a path of keys. -/
def at? (f : StateFacts) : List String → Option StateFacts
  | [] => some f
  | key :: keys => (f.children.lookup key).bind fun c => c.at? keys

theorem at?_append (f : StateFacts) (ks ks' : List String) :
    f.at? (ks ++ ks') = (f.at? ks).bind fun c => c.at? ks' := by
  induction ks generalizing f with
  | nil => rfl
  | cons k ks ih => simp only [List.cons_append, at?, Option.bind_assoc, ih]

theorem at?_concat {f c c' : StateFacts} {path : List String} {key : String}
    (hc : f.at? path = some c) (hc' : c.children.lookup key = some c') :
    f.at? (path ++ [key]) = some c' := by
  rw [at?_append, hc, Option.bind_some, at?, hc']
  rfl

mutual

/-- The paths of the facts below those at the end of `path`, in preorder. -/
def pathsFrom (path : List String) : StateFacts → List (List String)
  | state _ _ cs => pathsOfAll path cs

/-- The paths of some facts below the end of `path`, and of those below them. -/
def pathsOfAll (path : List String) : List (String × StateFacts) → List (List String)
  | [] => []
  | (key, f) :: rest =>
    (path ++ [key]) :: pathsFrom (path ++ [key]) f ++ pathsOfAll path rest

end

end StateFacts

/-! ## 2. Facts along the definition -/

namespace StateTree

mutual

/-- The facts of a state of the number `i` and of those below it. -/
def factsFrom (g : Graph) (i : Nat) : StateTree → StateFacts
  | state _ cs => .state (g.layout.targets i) (g.sources i) (factsOfAll g (i + 1) cs)

/-- The facts of the trees below a state, when the first one has the number `next`. -/
def factsOfAll (g : Graph) (next : Nat) : List (String × StateTree) → List (String × StateFacts)
  | [] => []
  | (key, t) :: rest => (key, factsFrom g next t) :: factsOfAll g (next + t.size) rest

end

variable (g : Graph)

@[simp] theorem targets_factsFrom (i : Nat) (s : StateTree) :
    (s.factsFrom g i).targets = g.layout.targets i := by
  cases s
  rfl

@[simp] theorem sources_factsFrom (i : Nat) (s : StateTree) :
    (s.factsFrom g i).sources = g.sources i := by
  cases s
  rfl

@[simp] theorem children_factsFrom (i : Nat) (s : StateTree) :
    (s.factsFrom g i).children = factsOfAll g (i + 1) s.children := by
  cases s
  rfl

theorem keys_factsOfAll (next : Nat) (cs : List (String × StateTree)) :
    Assoc.keys (factsOfAll g next cs) = Assoc.keys cs := by
  induction cs generalizing next with
  | nil => rfl
  | cons entry rest ih =>
    obtain ⟨key, c⟩ := entry
    rw [factsOfAll, Assoc.keys_cons, Assoc.keys_cons, ih]

theorem factsOfAll_append (next : Nat) (cs cs' : List (String × StateTree)) :
    factsOfAll g next (cs ++ cs') =
      factsOfAll g next cs ++ factsOfAll g (next + sizeAll cs) cs' := by
  induction cs generalizing next with
  | nil => rfl
  | cons entry rest ih =>
    simp only [List.cons_append, factsOfAll, sizeAll, ih, Nat.add_assoc]

mutual

/-- The paths of the facts of a state are those of the states below it. -/
theorem pathsFrom_factsFrom (i : Nat) (path : List String) : (s : StateTree) →
    path :: (s.factsFrom g i).pathsFrom path = (preorderFrom path s).map Prod.fst
  | state d cs => by
    rw [factsFrom, StateFacts.pathsFrom, preorderFrom, List.map_cons,
      pathsOfAll_factsOfAll (i + 1) path cs]

theorem pathsOfAll_factsOfAll (next : Nat) (path : List String) : (cs : List (String × StateTree)) →
    StateFacts.pathsOfAll path (factsOfAll g next cs) = (preorderOfAll path cs).map Prod.fst
  | [] => rfl
  | (key, c) :: rest => by
    rw [factsOfAll, StateFacts.pathsOfAll, preorderOfAll, List.map_append,
      pathsFrom_factsFrom next (path ++ [key]) c, pathsOfAll_factsOfAll (next + c.size) path rest]

end

variable {t s : StateTree} {g : Graph} {provided : Provided} {i : Nat} {path : List String}
  {parent : Option Nat}

/-- **Following the keys of a state leads to its facts.** -/
theorem Located.at?_factsFrom (hd : t.Everywhere fun _ cs => Assoc.Distinct cs)
    (h : Located t i path parent s) : (t.factsFrom g 0).at? path = some (s.factsFrom g i) := by
  induction h with
  | root => rfl
  | @child i path parent d key c before after h ih =>
    have hdistinct : Assoc.Distinct (before ++ (key, c) :: after) := (h.everywhere_of hd).here
    have hfacts : Assoc.Distinct (factsOfAll g (i + 1) (before ++ (key, c) :: after)) := by
      rwa [Assoc.Distinct, keys_factsOfAll]
    refine StateFacts.at?_concat ih ?_
    rw [children_factsFrom]
    refine hfacts.lookup_of_mem ?_
    rw [factsOfAll_append, factsOfAll]
    exact List.mem_append_right _ List.mem_cons_self

mutual

/-- **Facts down to a height no smaller than that of the state are all its facts.** Each level of
states takes at least one from the number of them. -/
theorem Located.factsWithin_eq (hg : Graph.ofTree? t provided = .ok g) : {s : StateTree} →
    {i : Nat} → {path : List String} → {parent : Option Nat} → Located t i path parent s →
    (height : Nat) → s.size ≤ height + 1 → g.factsWithin height i = s.factsFrom g i
  | state d [], i, path, parent, h, 0, _ => rfl
  | state d ((_, c) :: _), i, path, parent, h, 0, hsize => by
    have hpos := size_pos c
    rw [size, sizeAll] at hsize
    omega
  | state d cs, i, path, parent, h, height + 1, hsize => by
    obtain ⟨n, hn, hplace, -⟩ := Graph.exists_node hg h
    have hstates : ((g.nodes[i]?).map fun n => n.states).getD [] = numberSiblings (i + 1) cs := by
      rw [hn, Option.map_some, Option.getD_some, hplace]
      rfl
    rw [size] at hsize
    have hbelow := Located.factsWithin_below hg [] h height (by omega)
    rw [sizeAll, Nat.add_zero] at hbelow
    rw [Graph.factsWithin, hstates, factsFrom, hbelow]

theorem Located.factsWithin_below (hg : Graph.ofTree? t provided = .ok g) :
    {cs : List (String × StateTree)} → {i : Nat} → {path : List String} →
    {parent : Option Nat} → {d : StateDecl} → (before : List (String × StateTree)) →
    Located t i path parent (state d (before ++ cs)) → (height : Nat) →
    sizeAll cs ≤ height + 1 →
    ((numberSiblings (i + 1 + sizeAll before) cs).map fun (key, j) =>
      (key, g.factsWithin height j)) = factsOfAll g (i + 1 + sizeAll before) cs
  | [], _, _, _, _, _, _, _, _ => rfl
  | (key, c) :: cs, i, path, parent, d, before, h, height, hsize => by
    rw [sizeAll] at hsize
    have hc := Located.factsWithin_eq hg (.child before cs h) height (by omega)
    have hrest := Located.factsWithin_below hg _ h.past height (by omega)
    rw [sizeAll_concat, ← Nat.add_assoc] at hrest
    rw [numberSiblings, factsOfAll, List.map_cons, hrest, ← hc]

end

end StateTree

/-! ## 3. What is reported -/

namespace Graph

variable {t : StateTree} {provided : Provided} {g : Graph} {i : Nat} {n : Node}

section Built

variable (hg : ofTree? t provided = .ok g)
include hg

theorem stateFacts_eq : g.stateFacts 0 = t.factsFrom g 0 := by
  have hsize := size_of_ofTree? hg
  exact StateTree.Located.factsWithin_eq hg .root g.size (by omega)

/-- The places after the first are those of the states below the root. -/
theorem places_eq_cons : ∃ root below, g.layout.places = root :: below ∧ root.path = [] ∧
    (∀ p ∈ below, p.path ≠ []) ∧
    below.map (fun p => p.path) = (StateTree.preorderOfAll [] t.children).map Prod.fst := by
  have hl := places_of_ofTree? hg
  obtain ⟨d, cs⟩ := t
  rw [StateTree.placesWithDecls, StateTree.placesFrom, List.map_cons] at hl
  refine ⟨_, _, hl, rfl, ?_, ?_⟩
  · intro p hp hpath
    obtain ⟨pd, hpd, rfl⟩ := List.mem_map.1 hp
    have hdepth := StateTree.depth_placesOfAll _ _ _ _ cs pd hpd
    rw [Place.depth, hpath] at hdepth
    exact Nat.lt_irrefl 0 hdepth
  · have hpre := StateTree.placesOfAll_preorder (StateTree.rootKey (.state d cs)) (0 + 1) [] 0 cs
    rw [List.map_map, ← List.forall₂_eq_eq_eq, List.forall₂_map_left_iff,
      List.forall₂_map_right_iff]
    refine hpre.flip.imp ?_
    rintro _ ps ⟨j, parent, rfl⟩
    rfl

/-- All places but the first are reported. -/
theorem paths_eq_map {root : Place} {below : List Place} (hplaces : g.layout.places = root :: below)
    (hroot : root.path = []) (hne : ∀ p ∈ below, p.path ≠ []) :
    g.layout.paths 0 = below.map Place.dotted := by
  have hall : (g.layout.below 0).filterMap (fun j => g.layout.places[j]?) = g.layout.places := by
    have hsize : t.size = g.layout.places.length := by
      rw [places_of_ofTree? hg, List.length_map, StateTree.length_placesWithDecls]
    have hsome : ∀ p ∈ g.layout.places.zipIdx, ((fun j => g.layout.places[j]?) ∘ Prod.snd) p =
        some p.1 := by
      intro p hp
      exact List.mem_zipIdx_iff_getElem?.1 hp
    rw [StateTree.Located.root.below_eq (places_of_ofTree? hg), hsize, ← List.zipIdx_map_snd,
      List.filterMap_map, List.filterMap_congr hsome, List.filterMap_eq_map', List.zipIdx_map_fst]
  have hbelow : ∀ p ∈ below, (if p.path.isEmpty then none else some p.dotted) = some p.dotted := by
    intro p hp
    rw [if_neg]
    simpa using hne p hp
  have hfirst : (if root.path.isEmpty then none else some root.dotted) = none := by
    rw [hroot]
    rfl
  rw [Layout.paths, hall, hplaces, List.filterMap_cons]
  simp only [hfirst]
  rw [List.filterMap_congr hbelow, List.filterMap_eq_map']

/-- **The reported paths are those of the states but the root, in preorder.** -/
theorem paths_of_ofTree? : g.layout.paths 0 =
    ((StateTree.preorderOfAll [] t.children).map Prod.fst).map Dotted.join := by
  obtain ⟨root, below, hplaces, hroot, hne, hpaths⟩ := places_eq_cons hg
  rw [paths_eq_map hg hplaces hroot hne, ← hpaths, List.map_map]
  rfl

/-- A node whose path is no empty text is reported. -/
theorem mem_paths (hn : g.nodes[i]? = some n) (hdotted : n.dotted ≠ "") :
    n.dotted ∈ g.layout.paths 0 := by
  obtain ⟨root, below, hplaces, hroot, hne, -⟩ := places_eq_cons hg
  have hp : n.toPlace ∈ root :: below := by
    rw [← hplaces]
    exact List.mem_of_getElem? (place_of_node hn)
  rw [paths_eq_map hg hplaces hroot hne]
  rcases List.mem_cons.1 hp with hfirst | hbelow
  · refine absurd ?_ hdotted
    rw [hfirst, Place.dotted, hroot]
    rfl
  · exact List.mem_map_of_mem hbelow

/-- **What is found by the keys of a node is what is to be reported of it.** -/
theorem exists_at?_stateFacts (ht : t.KeysDistinct) (hn : g.nodes[i]? = some n) :
    ∃ f, (g.stateFacts 0).at? n.path = some f ∧ f.children.keys = n.states.keys ∧
      f.targets = g.layout.targets i ∧ f.sources = g.sources i := by
  obtain ⟨path, parent, s, hs, hplace⟩ := located_of_node hg hn
  refine ⟨s.factsFrom g i, ?_, ?_, StateTree.targets_factsFrom g i s,
    StateTree.sources_factsFrom g i s⟩
  · rw [stateFacts_eq hg, hplace]
    exact hs.at?_factsFrom ht.everywhere
  · rw [StateTree.children_factsFrom, StateTree.keys_factsOfAll, hplace]
    exact (StateTree.keys_numberSiblings _ _).symm

/-- The paths of the tree of facts are the reported ones. -/
theorem pathsFrom_stateFacts :
    ((g.stateFacts 0).pathsFrom []).map Dotted.join = g.layout.paths 0 := by
  rw [stateFacts_eq hg, paths_of_ofTree? hg]
  cases t with
  | state d cs => rw [StateTree.factsFrom, StateFacts.pathsFrom, StateTree.pathsOfAll_factsOfAll,
      StateTree.children_state]

end Built

/-- **What is reported of the node `n`**, the one of the number `i`. -/
structure Reports (g : Graph) (i : Nat) (n : Node) (f : StateFacts) : Prop where
  /-- The children come under their keys, in order. -/
  keys_eq : f.children.keys = n.states.keys
  targets_eq : f.targets = g.layout.targets i
  /-- The events are those of the transitions that have the node among their targets, each once,
  in the order of the transitions. -/
  sources_eq : f.sources = (g.arrivals i).eraseDups
  /-- They are also what the arrows to the node say, numbered among all arrows and at hand in
  whatever order, when these are sorted by number. -/
  incoming : ∀ incoming : List (Arrow × Nat),
    incoming.Perm (g.arrows.zipIdx.filter fun p => p.1.target == i) →
    f.sources = ((incoming.mergeSort fun p q => p.2 ≤ q.2).map fun p => p.1.event).eraseDups

/-- **Arrows and a direct look at the transitions agree, and what is reported of the states has the
shape of the machine.** There is one arrow for each target of each transition, between nodes, in
order; following the keys of a node leads to what is to be reported of it; and the dotted paths of
the tree in preorder are the reported ones. -/
theorem reports_of_ofTree? (ht : t.KeysDistinct) (hg : ofTree? t provided = .ok g) (id : String) :
    InOrder (· < ·) g.ArrowAt g.arrows ∧
      (∀ a ∈ g.arrows, a.source < g.size ∧ a.target < g.size) ∧
      (∀ (i : Nat) (n : Node), g.nodes[i]? = some n →
        ∃ f, (Facts.ofGraph g id).states.at? n.path = some f ∧ g.Reports i n f) ∧
      ((Facts.ofGraph g id).states.pathsFrom []).map Dotted.join = (Facts.ofGraph g id).paths := by
  refine ⟨g.inOrder_arrows, fun a ha => ?_, fun i n hn => ?_, pathsFrom_stateFacts hg⟩
  · obtain ⟨_, k, m, n, t, rfl, hn, ht, hm, -⟩ := g.inOrder_arrows.mem_iff.1 ha
    exact ⟨(List.getElem?_eq_some_iff.1 hn).1,
      lt_size_of_mem_targets hg hn (List.mem_of_getElem? ht) (List.mem_of_getElem? hm)⟩
  · obtain ⟨f, hf, hkeys, htargets, hsources⟩ := exists_at?_stateFacts hg ht hn
    refine ⟨f, hf, hkeys, htargets, by rw [hsources, sources_eq], fun incoming h => ?_⟩
    rw [hsources, g.sources_of_incoming i h]

theorem reports_wide_door : ∃ g f, door.KeysDistinct ∧ ofTree? door {} = .ok g ∧
    (Facts.ofGraph g "door").states.at? ["opened", "wide"] = some f ∧
      f.sources = ["", "PUSH"] := by
  obtain ⟨g, hg, hnode⟩ := Outcome.exists_eq_ok (x := ofTree? door {})
    (p := fun g => decide (g.arrivals 4 = ["", "PUSH"] ∧
      (g.nodes[4]?).map (fun n => n.path) = some ["opened", "wide"])) (by decide +kernel)
  obtain ⟨harrivals, hpath⟩ := of_decide_eq_true hnode
  obtain ⟨n, hn, hpath⟩ := Option.map_eq_some_iff.1 hpath
  obtain ⟨-, -, hreports, -⟩ := reports_of_ofTree? keysDistinct_door hg "door"
  obtain ⟨f, hf, hreport⟩ := hreports 4 n hn
  refine ⟨g, f, keysDistinct_door, hg, hpath ▸ hf, ?_⟩
  rw [hreport.sources_eq, harrivals]
  rfl

end Graph

end Statechart
