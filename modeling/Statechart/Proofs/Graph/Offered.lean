import Mathlib.Logic.Relation
import Statechart.Proofs.Graph.Preorder
import Statechart.Proofs.Graph.Targets

/-!
# What is on offer

Which texts the targets on offer on a node are, told by what stands below what and not by runs of
numbers. Every path to a node below the parent, every path to one below the node itself and every
reference through a written id is on offer, but for the text of the node's own full path. Main
statement: what is left out for its sake, which is at most one node where keys are single segments.
-/

namespace Statechart

/-! ## 1. Paths between places -/

/-- The dotted path of the place `q` as read from the place `p` above it. -/
def Place.pathFrom (q p : Place) : String := Dotted.join (q.path.drop p.depth)

theorem Place.pathFrom_of_path {p q : Place} {keys : List String} (h : q.path = p.path ++ keys) :
    q.pathFrom p = Dotted.join keys := by
  rw [pathFrom, h, depth, List.drop_left]

/-- The text is the full path of the place, which does not stand right below the root. -/
def Place.FullPath (p : Place) (text : String) : Prop := 1 < p.depth ∧ text = p.dotted

/-- Every key is one segment of a target: there is something to it, and it holds no dot. -/
def StateTree.SegmentKeys (t : StateTree) : Prop :=
  t.Everywhere fun _ cs => ∀ key ∈ cs.keys, key ≠ "" ∧ '.' ∉ key.toList

namespace Graph

/-- The text is the written id of the node `m`, which is the node `h`, and the path from there to
the node `j` below it. -/
structure ReferenceBelow (g : Graph) (h : Nat) (m : Node) (j : Nat) (r : String) : Prop where
  holder : g.nodes[h]? = some m
  written : m.explicitId = true
  exists_below : ∃ d : Node, g.nodes[j]? = some d ∧ g.layout.Above h j ∧
    r = m.id ++ "." ++ d.pathFrom m.toPlace

/-- **What may stand after `#`**: the written id of a state that is not the root, or a written id
and the path of a state below the one that has it. -/
inductive WrittenReference (g : Graph) : String → Prop
  | itself {h : Nat} {m : Node} (hm : g.nodes[h]? = some m) (hid : m.explicitId = true)
      (hparent : m.parent ≠ none) : WrittenReference g m.id
  | below {h j : Nat} {m : Node} {r : String} (hr : g.ReferenceBelow h m j r) : WrittenReference g r

/-- **The text is a way to write, on the node `i`, what stands below its parent or below itself, or
what a written id leads to.** -/
inductive Offers (g : Graph) (i : Nat) : String → Prop
  | fromParent {k j : Nat} {n p d : Node} (hn : g.nodes[i]? = some n) (hparent : n.parent = some k)
      (hp : g.nodes[k]? = some p) (hd : g.nodes[j]? = some d) (habove : g.layout.Above k j) :
      Offers g i (d.pathFrom p.toPlace)
  | fromSelf {j : Nat} {n d : Node} (hn : g.nodes[i]? = some n) (hd : g.nodes[j]? = some d)
      (habove : g.layout.Above i j) : Offers g i ("." ++ d.pathFrom n.toPlace)
  | byId {r : String} (hr : g.WrittenReference r) : Offers g i ("#" ++ r)

variable {t : StateTree} {provided : Provided} {g : Graph} {i j k : Nat} {n m p d : Node}
  {text : String}

/-! ## 2. Above and below -/

/-- What stands below something is a node. -/
theorem exists_node_of_above (h : g.layout.Above i j) : ∃ m : Node, g.nodes[j]? = some m := by
  obtain ⟨k, -, q, hq, -⟩ := Relation.TransGen.tail'_iff.1 h
  obtain ⟨m, hm, -⟩ := node_of_place hq
  exact ⟨m, hm⟩

/-- A node is what a table of all nodes tells of its number. -/
theorem exists_node_of_map {α : Type} {f : Node → α} {table : List α} {a : α}
    (h : g.nodes.map f = table) (ha : table[i]? = some a) :
    ∃ m : Node, g.nodes[i]? = some m ∧ f m = a := by
  rw [← h, List.getElem?_map] at ha
  exact Option.map_eq_some_iff.1 ha

theorem parentOf_iff (hm : g.nodes[j]? = some m) : g.layout.ParentOf i j ↔ m.parent = some i := by
  constructor
  · rintro ⟨q, hq, hparent⟩
    obtain rfl := Option.some.inj (hq.symm.trans (place_of_node hm))
    exact hparent
  · intro hparent
    exact ⟨m.toPlace, place_of_node hm, hparent⟩

section Built

variable (hg : ofTree? t provided = .ok g)
include hg

/-- What holds of the keys below each state holds of the keys of every path. -/
theorem forall_mem_path {Q : String → Prop} (hQ : t.Everywhere fun _ cs => ∀ key ∈ cs.keys, Q key)
    (hn : g.nodes[i]? = some n) : ∀ key ∈ n.path, Q key := by
  obtain ⟨path, parent, s, hs, hplace⟩ := located_of_node hg hn
  rw [hplace]
  exact hs.forall_mem_path hQ

theorem forall_mem_of_path {Q : String → Prop}
    (hQ : t.Everywhere fun _ cs => ∀ key ∈ cs.keys, Q key) (hn : g.nodes[i]? = some n)
    {path keys : List String} (hpath : n.path = path ++ keys) : ∀ key ∈ keys, Q key :=
  fun key hkey => forall_mem_path hg hQ hn key (hpath ▸ List.mem_append_right path hkey)

theorem path_of_parent_eq_none (hn : g.nodes[i]? = some n) (h : n.parent = none) : n.path = [] := by
  obtain rfl := (parent_eq_none_iff hg hn).1 h
  obtain ⟨root, hroot, hplace, -⟩ := exists_node hg .root
  obtain rfl := Option.some.inj (hroot.symm.trans hn)
  rw [hplace]
  rfl

variable (ht : t.KeysDistinct)
include ht

theorem path_injective (hn : g.nodes[i]? = some n) (hm : g.nodes[j]? = some m)
    (h : n.path = m.path) : i = j :=
  StateTree.path_injective (ofTree?_eq_ok hg).1 ht (place_of_node hn) (place_of_node hm) h

theorem path_of_parent (hm : g.nodes[j]? = some m) (hparent : m.parent = some i)
    (hn : g.nodes[i]? = some n) : m.path = n.path ++ [m.key] := by
  obtain ⟨-, p, hp, hpath, -⟩ := parent_of_ofTree? hg ht hm hparent
  obtain rfl := Option.some.inj (hn.symm.trans hp)
  exact hpath

theorem pathFrom_parent (hm : g.nodes[j]? = some m) (hparent : m.parent = some i)
    (hn : g.nodes[i]? = some n) : m.pathFrom n.toPlace = m.key := by
  rw [Place.pathFrom_of_path (path_of_parent hg ht hm hparent hn), Dotted.join_singleton]

/-- Where a path has a last key, the node has a parent, and that has the path before it. -/
theorem exists_parent_of_path (hm : g.nodes[j]? = some m) {path : List String} {key : String}
    (hpath : m.path = path ++ [key]) :
    ∃ k p, m.parent = some k ∧ g.nodes[k]? = some p ∧ p.path = path := by
  cases hparent : m.parent with
  | none =>
    rw [path_of_parent_eq_none hg hm hparent] at hpath
    simp at hpath
  | some k =>
    obtain ⟨-, p, hp, hmpath, -⟩ := parent_of_ofTree? hg ht hm hparent
    rw [hmpath] at hpath
    exact ⟨k, p, rfl, hp, (List.append_inj' hpath rfl).1⟩

/-- **Below a node stand those whose paths go on from its own.** -/
theorem above_iff (hn : g.nodes[i]? = some n) (hm : g.nodes[j]? = some m) :
    g.layout.Above i j ↔ ∃ keys, keys ≠ [] ∧ m.path = n.path ++ keys := by
  constructor
  · intro h
    induction h generalizing m with
    | single h =>
      exact ⟨[m.key], by simp, path_of_parent hg ht hm ((parentOf_iff hm).1 h) hn⟩
    | tail _ h ih =>
      obtain ⟨-, p, hp, hpath, -⟩ := parent_of_ofTree? hg ht hm ((parentOf_iff hm).1 h)
      obtain ⟨keys, -, hkeys⟩ := ih hp
      exact ⟨keys ++ [m.key], by simp, by rw [hpath, hkeys, List.append_assoc]⟩
  · rintro ⟨keys, hne, hpath⟩
    induction keys using List.reverseRecOn generalizing j m with
    | nil => exact absurd rfl hne
    | append_singleton keys key ih =>
      rw [← List.append_assoc] at hpath
      obtain ⟨k, p, hparent, hp, hppath⟩ := exists_parent_of_path hg ht hm hpath
      have hlast := (parentOf_iff hm).2 hparent
      cases keys with
      | nil =>
        rw [List.append_nil] at hppath
        obtain rfl := path_injective hg ht hp hn hppath
        exact .single hlast
      | cons key' keys => exact .tail (ih hp (by simp) hppath) hlast

/-- The nodes after the first of a run are those below it. -/
theorem mem_tail_below_iff (hn : g.nodes[i]? = some n) :
    j ∈ (g.layout.below i).tail ↔ g.layout.Above i j := by
  obtain ⟨⟨k, hk, hrun⟩, hmem, -⟩ := below_of_ofTree? hg ht hn
  have htail : j ∈ (g.layout.below i).tail ↔ j ∈ g.layout.below i ∧ j ≠ i := by
    rw [hrun, List.tail_range', List.mem_range'_1, List.mem_range'_1]
    omega
  rw [htail]
  constructor
  · rintro ⟨hj, hne⟩
    have hlt : j < g.nodes.length := by
      rw [hrun, List.mem_range'_1] at hj
      exact Nat.lt_of_lt_of_le hj.2 hk
    have hm := List.getElem?_eq_getElem hlt
    obtain ⟨keys, hpath⟩ := (hmem j _ hm).1 hj
    refine (above_iff hg ht hn hm).2 ⟨keys, ?_, hpath.symm⟩
    rintro rfl
    rw [List.append_nil] at hpath
    exact hne (path_injective hg ht hm hn hpath.symm)
  · intro habove
    obtain ⟨m, hm⟩ := exists_node_of_above habove
    obtain ⟨keys, hne, hpath⟩ := (above_iff hg ht hn hm).1 habove
    refine ⟨(hmem j m hm).2 ⟨keys, hpath.symm⟩, ?_⟩
    rintro rfl
    obtain rfl := Option.some.inj (hn.symm.trans hm)
    exact hne (by simpa using hpath)

/-! ## 3. What is on offer, list by list -/

theorem mem_pathsBelow_iff (hn : g.nodes[i]? = some n) {depth : Nat} :
    text ∈ g.layout.pathsBelow i depth ↔ ∃ j d, g.nodes[j]? = some d ∧ g.layout.Above i j ∧
      text = Dotted.join (d.path.drop depth) := by
  rw [Layout.pathsBelow, List.mem_map]
  constructor
  · rintro ⟨q, hq, rfl⟩
    obtain ⟨j, hj, hjq⟩ := List.mem_filterMap.1 hq
    obtain ⟨d, hd, rfl⟩ := node_of_place hjq
    exact ⟨j, d, hd, (mem_tail_below_iff hg ht hn).1 hj, rfl⟩
  · rintro ⟨j, d, hd, habove, rfl⟩
    have hj := (mem_tail_below_iff hg ht hn).2 habove
    exact ⟨d.toPlace, List.mem_filterMap.2 ⟨j, hj, place_of_node hd⟩, rfl⟩

/-- The children of a node under their keys are what has it as parent. -/
theorem mem_states_iff (hp : g.nodes[k]? = some p) {key : String} :
    (key, j) ∈ p.states ↔ ∃ c : Node, g.nodes[j]? = some c ∧ c.parent = some k ∧ c.key = key := by
  constructor
  · exact child_of_mem_states hg hp
  · rintro ⟨c, hc, hparent, rfl⟩
    obtain ⟨-, p', hp', -, hlookup⟩ := parent_of_ofTree? hg ht hc hparent
    obtain rfl := Option.some.inj (hp.symm.trans hp')
    exact Assoc.mem_of_lookup hlookup

/-- Below a node stand its children and what is below them. -/
theorem above_iff_exists_child (hp : g.nodes[k]? = some p) :
    g.layout.Above k j ↔ ∃ key c, (key, c) ∈ p.states ∧ (c = j ∨ g.layout.Above c j) := by
  rw [Layout.Above, Relation.TransGen.head'_iff]
  constructor
  · rintro ⟨c, ⟨q, hq, hparent⟩, hrest⟩
    obtain ⟨child, hc, rfl⟩ := node_of_place hq
    have hentry := (mem_states_iff hg ht hp).2 ⟨child, hc, hparent, rfl⟩
    refine ⟨child.key, c, hentry, ?_⟩
    exact (Relation.reflTransGen_iff_eq_or_transGen.1 hrest).imp_left Eq.symm
  · rintro ⟨key, c, hentry, hrest⟩
    obtain ⟨child, hc, hparent, -⟩ := (mem_states_iff hg ht hp).1 hentry
    refine ⟨c, (parentOf_iff hc).2 hparent, ?_⟩
    exact Relation.reflTransGen_iff_eq_or_transGen.2 (hrest.imp_left Eq.symm)

/-- The siblings and what lies below them are all that lies below the parent. -/
theorem mem_siblingTargets_iff (hn : g.nodes[i]? = some n) :
    text ∈ g.layout.siblingTargets n.toPlace ↔ ∃ k p j d, n.parent = some k ∧
      g.nodes[k]? = some p ∧ g.nodes[j]? = some d ∧ g.layout.Above k j ∧
      text = d.pathFrom p.toPlace := by
  unfold Layout.siblingTargets
  cases hparent : n.parent with
  | none => simp
  | some k =>
    obtain ⟨-, p, hp, -, -⟩ := parent_of_ofTree? hg ht hn hparent
    rw [Option.bind_some, place_of_node hp]
    dsimp only
    rw [List.mem_append, List.mem_flatMap]
    constructor
    · rintro (hkey | ⟨⟨key, c⟩, hentry, hbelow⟩)
      · obtain ⟨⟨key, j⟩, hentry, rfl⟩ := List.mem_map.1 hkey
        obtain ⟨c, hc, hcparent, rfl⟩ := (mem_states_iff hg ht hp).1 hentry
        have habove := (above_iff_exists_child hg ht hp).2 ⟨c.key, j, hentry, Or.inl rfl⟩
        exact ⟨k, p, j, c, rfl, hp, hc, habove, (pathFrom_parent hg ht hc hcparent hp).symm⟩
      · obtain ⟨child, hc, -, -⟩ := (mem_states_iff hg ht hp).1 hentry
        obtain ⟨j, d, hd, hrest, rfl⟩ := (mem_pathsBelow_iff hg ht hc).1 hbelow
        have habove := (above_iff_exists_child hg ht hp).2 ⟨key, c, hentry, Or.inr hrest⟩
        exact ⟨k, p, j, d, rfl, hp, hd, habove, rfl⟩
    · rintro ⟨k', p', j, d, ⟨⟩, hp', hd, habove, rfl⟩
      obtain rfl := Option.some.inj (hp.symm.trans hp')
      obtain ⟨key, c, hentry, rfl | hrest⟩ := (above_iff_exists_child hg ht hp).1 habove
      · obtain ⟨child, hc, hcparent, rfl⟩ := (mem_states_iff hg ht hp).1 hentry
        obtain rfl := Option.some.inj (hd.symm.trans hc)
        rw [pathFrom_parent hg ht hd hcparent hp]
        exact Or.inl (List.mem_map_of_mem hentry)
      · obtain ⟨child, hc, -, -⟩ := (mem_states_iff hg ht hp).1 hentry
        exact Or.inr ⟨_, hentry, (mem_pathsBelow_iff hg ht hc).2 ⟨j, d, hd, hrest, rfl⟩⟩

theorem mem_childTargets_iff (hn : g.nodes[i]? = some n) :
    text ∈ g.layout.childTargets i n.toPlace ↔ ∃ j d, g.nodes[j]? = some d ∧
      g.layout.Above i j ∧ text = "." ++ d.pathFrom n.toPlace := by
  rw [Layout.childTargets, List.mem_map]
  constructor
  · rintro ⟨relative, hrelative, rfl⟩
    obtain ⟨j, d, hd, habove, rfl⟩ := (mem_pathsBelow_iff hg ht hn).1 hrelative
    exact ⟨j, d, hd, habove, rfl⟩
  · rintro ⟨j, d, hd, habove, rfl⟩
    exact ⟨_, (mem_pathsBelow_iff hg ht hn).2 ⟨j, d, hd, habove, rfl⟩, rfl⟩

/-- What the written ids lead to, taken together, is what may stand after `#`. -/
theorem mem_viaIds_iff :
    text ∈ (g.layout.places.zipIdx.flatMap fun entry => g.layout.idTargets entry.2 entry.1) ↔
      ∃ r, g.WrittenReference r ∧ text = "#" ++ r := by
  have hcut (id rest : String) : "#" ++ id ++ "." ++ rest = "#" ++ (id ++ "." ++ rest) := by
    simp only [String.append_assoc]
  rw [List.mem_flatMap]
  constructor
  · rintro ⟨⟨q, h⟩, hq, htext⟩
    obtain ⟨m, hm, rfl⟩ := node_of_place (List.mem_zipIdx_iff_getElem?.1 hq)
    unfold Layout.idTargets at htext
    split at htext
    · next hid =>
      rcases List.mem_append.1 htext with hself | hbelow
      · split at hself
        · cases hself
        · next hne =>
          obtain rfl := List.mem_singleton.1 hself
          exact ⟨m.id, .itself hm hid fun h => hne ((parent_eq_none_iff hg hm).1 h), rfl⟩
      · obtain ⟨relative, hrelative, rfl⟩ := List.mem_map.1 hbelow
        obtain ⟨j, d, hd, habove, rfl⟩ := (mem_pathsBelow_iff hg ht hm).1 hrelative
        exact ⟨_, .below ⟨hm, hid, d, hd, habove, rfl⟩, hcut _ _⟩
    · cases htext
  · rintro ⟨r, hr, rfl⟩
    cases hr with
    | @itself h m hm hid hparent =>
      refine ⟨(m.toPlace, h), List.mem_zipIdx_iff_getElem?.2 (place_of_node hm), ?_⟩
      have hne : h ≠ 0 := fun h => hparent ((parent_eq_none_iff hg hm).2 h)
      rw [Layout.idTargets, if_pos hid, if_neg hne]
      exact List.mem_append_left _ List.mem_cons_self
    | @below h j m r hr =>
      obtain ⟨hm, hid, d, hd, habove, rfl⟩ := hr
      refine ⟨(m.toPlace, h), List.mem_zipIdx_iff_getElem?.2 (place_of_node hm), ?_⟩
      rw [Layout.idTargets, if_pos hid, ← hcut]
      refine List.mem_append_right _ (List.mem_map.2 ⟨_, ?_, rfl⟩)
      exact (mem_pathsBelow_iff hg ht hm).2 ⟨j, d, hd, habove, rfl⟩

/-- **On offer is every way to write a target, the text of the node's full path left out.** -/
theorem mem_targets_iff (hn : g.nodes[i]? = some n) :
    text ∈ g.layout.targets i ↔ g.Offers i text ∧ ¬ n.FullPath text := by
  have hall : text ∈ g.layout.siblingTargets n.toPlace ++ g.layout.childTargets i n.toPlace ++
      (g.layout.places.zipIdx.flatMap fun entry => g.layout.idTargets entry.2 entry.1) ↔
        g.Offers i text := by
    rw [List.mem_append, List.mem_append, mem_siblingTargets_iff hg ht hn,
      mem_childTargets_iff hg ht hn, mem_viaIds_iff hg ht]
    constructor
    · rintro ((⟨k, p, j, d, hparent, hp, hd, habove, rfl⟩ | ⟨j, d, hd, habove, rfl⟩) | ⟨r, hr, rfl⟩)
      · exact .fromParent hn hparent hp hd habove
      · exact .fromSelf hn hd habove
      · exact .byId hr
    · intro h
      cases h with
      | fromParent hn' hparent hp hd habove =>
        obtain rfl := Option.some.inj (hn.symm.trans hn')
        exact Or.inl (Or.inl ⟨_, _, _, _, hparent, hp, hd, habove, rfl⟩)
      | fromSelf hn' hd habove =>
        obtain rfl := Option.some.inj (hn.symm.trans hn')
        exact Or.inl (Or.inr ⟨_, _, hd, habove, rfl⟩)
      | byId hr => exact Or.inr ⟨_, hr, rfl⟩
  rw [← hall, Place.FullPath, Layout.targets, place_of_node hn]
  dsimp only
  split
  · next hdepth => simp [List.mem_filter, hdepth]
  · next hdepth => simp [hdepth]

end Built

/-! ## 4. Paths on offer -/

section Keys

variable (hg : ofTree? t provided = .ok g)
include hg

/-- Where keys are single segments, a path is written as the full path of the node just where it
has the same keys. -/
theorem fullPath_pathFrom_iff (hkeys : t.SegmentKeys) (hn : g.nodes[i]? = some n)
    (hd : g.nodes[j]? = some d) {keys : List String} (hne : keys ≠ [])
    (hpath : d.path = p.path ++ keys) :
    n.FullPath (d.pathFrom p.toPlace) ↔ 1 < n.depth ∧ d.path = p.path ++ n.path := by
  have hdotless : ∀ key ∈ keys, '.' ∉ key.toList := fun key hkey =>
    (forall_mem_of_path hg hkeys hd hpath key hkey).2
  have hown : ∀ key ∈ n.path, '.' ∉ key.toList := fun key hkey =>
    (forall_mem_path hg hkeys hn key hkey).2
  refine and_congr_right fun hdepth => ?_
  have hnpath : n.path ≠ [] := List.length_pos_iff.1 (Nat.lt_trans Nat.zero_lt_one hdepth)
  rw [Place.pathFrom_of_path hpath, Place.dotted, Dotted.join_inj hne hnpath hdotless hown, hpath,
    List.append_cancel_left_eq]

/-- Where keys are single segments, no full path starts with a dot. -/
theorem not_fullPath_dot (hkeys : t.SegmentKeys) (hn : g.nodes[i]? = some n) :
    ¬ n.FullPath ("." ++ text) := by
  rintro ⟨hdepth, htext⟩
  cases hpath : n.path with
  | nil =>
    rw [Place.depth, hpath] at hdepth
    exact absurd hdepth (by decide)
  | cons key keys =>
    obtain ⟨hne, hdotless⟩ := forall_mem_path hg hkeys hn key (hpath ▸ List.mem_cons_self)
    have hhead : key.toList.head? = some '.' := by
      rw [← Dotted.head?_join hne keys, ← hpath]
      show n.dotted.toList.head? = some '.'
      rw [← htext, Dotted.toList_dot, List.head?_cons]
    exact hdotless (List.mem_of_head? hhead)

end Keys

/-- **What is on offer on the node `n` of what stands below its parent and below itself.** -/
structure OffersBelow (g : Graph) (t : StateTree) (i : Nat) (n : Node) : Prop where
  /-- All that stands below the parent is on offer by its path from there, save what is written as
  the full path of the node. -/
  fromParent : ∀ (k j : Nat) (p d : Node), n.parent = some k → g.nodes[k]? = some p →
    g.nodes[j]? = some d → g.layout.Above k j →
    (d.pathFrom p.toPlace ∈ g.layout.targets i ↔ ¬ n.FullPath (d.pathFrom p.toPlace))
  /-- All that stands below the node is on offer behind a dot, with the same exception. -/
  fromSelf : ∀ (j : Nat) (d : Node), g.nodes[j]? = some d → g.layout.Above i j →
    ("." ++ d.pathFrom n.toPlace ∈ g.layout.targets i ↔ ¬ n.FullPath ("." ++ d.pathFrom n.toPlace))
  /-- Where keys are single segments, the exception is one node at most: the one to which the full
  path of the node leads a second time, from the parent. -/
  left_out_iff : t.SegmentKeys → ∀ (k j : Nat) (p d : Node), n.parent = some k →
    g.nodes[k]? = some p → g.nodes[j]? = some d → g.layout.Above k j →
    (d.pathFrom p.toPlace ∉ g.layout.targets i ↔ 1 < n.depth ∧ d.path = p.path ++ n.path)
  /-- Behind a dot there is none then. -/
  fromSelf_all : t.SegmentKeys → ∀ (j : Nat) (d : Node), g.nodes[j]? = some d →
    g.layout.Above i j → "." ++ d.pathFrom n.toPlace ∈ g.layout.targets i

/-- **Below its parent and below itself every node is on offer**, by its path from there, but for
one that is written as the full path of the source. -/
theorem offersBelow_of_ofTree? (ht : t.KeysDistinct) (hg : ofTree? t provided = .ok g)
    (hn : g.nodes[i]? = some n) : g.OffersBelow t i n := by
  have hparent : ∀ (k j : Nat) (p d : Node), n.parent = some k → g.nodes[k]? = some p →
      g.nodes[j]? = some d → g.layout.Above k j →
      (d.pathFrom p.toPlace ∈ g.layout.targets i ↔ ¬ n.FullPath (d.pathFrom p.toPlace)) := by
    intro k j p d hk hp hd habove
    rw [mem_targets_iff hg ht hn]
    exact and_iff_right (.fromParent hn hk hp hd habove)
  have hself : ∀ (j : Nat) (d : Node), g.nodes[j]? = some d → g.layout.Above i j →
      ("." ++ d.pathFrom n.toPlace ∈ g.layout.targets i ↔
        ¬ n.FullPath ("." ++ d.pathFrom n.toPlace)) := by
    intro j d hd habove
    rw [mem_targets_iff hg ht hn]
    exact and_iff_right (.fromSelf hn hd habove)
  exact {
    fromParent := hparent
    fromSelf := hself
    left_out_iff := by
      intro hkeys k j p d hk hp hd habove
      obtain ⟨keys, hne, hpath⟩ := (above_iff hg ht hp hd).1 habove
      rw [hparent k j p d hk hp hd habove, not_not, fullPath_pathFrom_iff hg hkeys hn hd hne hpath]
    fromSelf_all := fun hkeys j d hd habove =>
      (hself j d hd habove).2 (not_fullPath_dot hg hkeys hn) }

/-- A menu with a menu in it, both with an item. -/
def menu : StateTree :=
  .state {} [("menu", .state {} [("item", .empty), ("menu", .state {} [("item", .empty)])])]

theorem keysDistinct_menu : menu.KeysDistinct := by
  simp [menu, StateTree.KeysDistinct, StateTree.KeysDistinctAll, StateTree.empty, Assoc.Distinct]

theorem segmentKeys_menu : menu.SegmentKeys := by
  simp only [menu, StateTree.empty, StateTree.SegmentKeys, StateTree.Everywhere,
    StateTree.EverywhereIn]
  decide

/-- The item of the inner menu cannot be chosen on that of the outer one: its path from the outer
menu is what the full path of the source looks like. -/
theorem inner_item_not_offered : ∃ (g : Graph) (p n d : Node), ofTree? menu {} = .ok g ∧
    g.nodes[1]? = some p ∧ g.nodes[2]? = some n ∧ g.nodes[4]? = some d ∧ n.parent = some 1 ∧
    g.layout.Above 1 4 ∧ d.pathFrom p.toPlace = "menu.item" ∧
    "menu.item" ∉ g.layout.targets 2 ∧ g.layout.resolve? 2 "menu.item" = some 4 := by
  obtain ⟨g, hg, hfacts⟩ := Outcome.exists_eq_ok (x := ofTree? menu {})
    (p := fun g => decide (g.nodes.map (fun n => (n.path, n.parent)) = [([], none),
        (["menu"], some 0), (["menu", "item"], some 1), (["menu", "menu"], some 1),
        (["menu", "menu", "item"], some 3)] ∧
      g.layout.resolve? 2 "menu.item" = some 4)) (by decide +kernel)
  obtain ⟨hnodes, hresolve⟩ := of_decide_eq_true hfacts
  obtain ⟨p, hp, hppath⟩ := exists_node_of_map (i := 1) hnodes rfl
  obtain ⟨n, hn, hnpath⟩ := exists_node_of_map (i := 2) hnodes rfl
  obtain ⟨d, hd, hdpath⟩ := exists_node_of_map (i := 4) hnodes rfl
  obtain ⟨hppath, -⟩ := Prod.mk.inj hppath
  obtain ⟨hnpath, hparent⟩ := Prod.mk.inj hnpath
  obtain ⟨hdpath, -⟩ := Prod.mk.inj hdpath
  have hpath : d.path = p.path ++ ["menu", "item"] := by rw [hdpath, hppath]; rfl
  have habove : g.layout.Above 1 4 := (above_iff hg keysDistinct_menu hp hd).2 ⟨_, by simp, hpath⟩
  have htext : d.pathFrom p.toPlace = "menu.item" := Place.pathFrom_of_path hpath
  have hleft := ((offersBelow_of_ofTree? keysDistinct_menu hg hn).left_out_iff segmentKeys_menu
    1 4 p d hparent hp hd habove).2 ⟨by rw [Place.depth, hnpath]; decide, by rw [hpath, hnpath]⟩
  rw [htext] at hleft
  exact ⟨g, p, n, d, hg, hp, hn, hd, hparent, habove, htext, hleft, hresolve⟩

end Graph

end Statechart
