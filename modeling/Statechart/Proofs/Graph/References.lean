import Statechart.Proofs.Graph.Offered
import Statechart.Proofs.Graph.Resolution

/-!
# References

Targets with `#`, which do not depend on the state they are written on. Main statements: which of
them are on offer, where no key starts with `#`; that one through a written id leads to the state
that it names, unless the whole of it is a name of its own; and what becomes of one whose id holds a
dot.
-/

namespace Statechart

/-- No key starts with `#`. -/
def StateTree.HashlessKeys (t : StateTree) : Prop :=
  t.Everywhere fun _ cs => ∀ key ∈ cs.keys, key.toList.head? ≠ some '#'

namespace Graph

variable {t : StateTree} {provided : Provided} {g : Graph} {h i j k : Nat} {n m d : Node}
  {r : String}

/-! ## 1. References on offer -/

/-- Where no key starts with `#`, no path does. -/
theorem head?_join_ne_hash (hg : ofTree? t provided = .ok g) (hkeys : t.HashlessKeys)
    (hn : g.nodes[i]? = some n) {path keys : List String} (hpath : n.path = path ++ keys) :
    (Dotted.join keys).toList.head? ≠ some '#' := by
  cases keys with
  | nil => decide
  | cons key keys =>
    have hkey := forall_mem_of_path hg hkeys hn hpath key List.mem_cons_self
    exact Dotted.head?_join_ne (by decide) hkey keys

/-- **Written ids are on offer everywhere**: where no key starts with `#`, just those texts with `#`
are on offer on a node that are the written id of a state but the root, or a written id and the path
of a state below the one that has it. -/
theorem hash_mem_targets_iff (ht : t.KeysDistinct) (hkeys : t.HashlessKeys)
    (hg : ofTree? t provided = .ok g) (hn : g.nodes[i]? = some n) (r : String) :
    "#" ++ r ∈ g.layout.targets i ↔ g.WrittenReference r := by
  rw [mem_targets_iff hg ht hn]
  constructor
  · rintro ⟨h, -⟩
    generalize htext : "#" ++ r = text at h
    cases h with
    | fromParent hn' hparent hp hd habove =>
      obtain ⟨keys, hne, hpath⟩ := (above_iff hg ht hp hd).1 habove
      refine absurd ?_ (head?_join_ne_hash hg hkeys hd hpath)
      rw [← Place.pathFrom_of_path hpath, ← htext, Dotted.toList_hash, List.head?_cons]
    | fromSelf => exact absurd htext (Dotted.hash_ne_dot _ _)
    | byId hr => exact Dotted.hash_inj htext ▸ hr
  · intro hr
    refine ⟨.byId hr, ?_⟩
    rintro ⟨-, htext⟩
    refine absurd ?_ (head?_join_ne_hash hg hkeys hn (List.nil_append n.path).symm)
    show n.dotted.toList.head? = some '#'
    rw [← htext, Dotted.toList_hash, List.head?_cons]

theorem hashlessKeys_door : door.HashlessKeys := by
  simp only [door, StateTree.empty, StateTree.HashlessKeys, StateTree.Everywhere,
    StateTree.EverywhereIn]
  decide

/-- The root is the one state whose written id is not on offer. -/
theorem references_of_closed_door : ∃ g : Graph, ofTree? door {} = .ok g ∧
    "#out" ∈ g.layout.targets 1 ∧ g.WrittenReference "out.wide" ∧
    "#door" ∉ g.layout.targets 1 ∧ ¬ g.WrittenReference "door" := by
  obtain ⟨g, hg, hfacts⟩ := Outcome.exists_eq_ok (x := ofTree? door {})
    (p := fun g => decide (1 < g.nodes.length ∧ "#out" ∈ g.layout.targets 1 ∧
      "#out.wide" ∈ g.layout.targets 1 ∧ "#door" ∉ g.layout.targets 1)) (by decide +kernel)
  obtain ⟨hlt, hout, hwide, hdoor⟩ := of_decide_eq_true hfacts
  have hiff := hash_mem_targets_iff keysDistinct_door hashlessKeys_door hg
    (List.getElem?_eq_getElem hlt)
  exact ⟨g, hg, hout, (hiff "out.wide").1 hwide, hdoor, fun h => hdoor ((hiff "door").2 h)⟩

/-! ## 2. Where references lead -/

section Built

variable (hg : ofTree? t provided = .ok g)
include hg

/-- The state known under the whole reference is found. -/
theorem resolve?_of_registered (hk : g.layout.Registered t.rootKey r k) :
    g.layout.resolve? i ("#" ++ r) = some k := by
  rw [Layout.resolve?_hash, (StateTree.byId?_eq_some_iff (ofTree?_eq_ok hg).1).2 hk, Option.some_or]

/-- Where a reference leads to a state unless it is a name, it leads there just where it is no name
of another one. -/
theorem resolve?_iff_of_not_registered
    (hcut : (∀ k, ¬ g.layout.Registered t.rootKey r k) →
      g.layout.resolve? i ("#" ++ r) = some j) :
    g.layout.resolve? i ("#" ++ r) = some j ↔ ∀ k, g.layout.Registered t.rootKey r k → k = j := by
  constructor
  · intro hj k hk
    rw [resolve?_of_registered hg hk] at hj
    exact Option.some.inj hj
  · intro hall
    by_cases hname : ∃ k, g.layout.Registered t.rootKey r k
    · obtain ⟨k, hk⟩ := hname
      rw [resolve?_of_registered hg hk, hall k hk]
    · exact hcut fun k hk => hname ⟨k, hk⟩

/-- The id of the root is the key that all derived ids start with. -/
theorem id_of_parent_eq_none (hm : g.nodes[h]? = some m) (hparent : m.parent = none) :
    m.id = t.rootKey := by
  obtain rfl := (parent_eq_none_iff hg hm).1 hparent
  obtain ⟨root, hroot, hplace, -⟩ := exists_node hg .root
  obtain rfl := Option.some.inj (hm.symm.trans hroot)
  have hid : m.id = t.idAt t.rootKey [] := congrArg Place.id hplace
  rw [hid, StateTree.idAt, StateTree.derivedId, Dotted.join_singleton, StateTree.rootKey]
  cases t.decl.id <;> rfl

/-- What the root's id and a path make up is the id that the path spells. -/
theorem called_below_root (hm : g.nodes[h]? = some m) (hparent : m.parent = none)
    {keys : List String} (hne : keys ≠ []) (hpath : d.path = m.path ++ keys) :
    d.toPlace.Called t.rootKey (m.id ++ "." ++ Dotted.join keys) := by
  rw [path_of_parent_eq_none hg hm hparent, List.nil_append] at hpath
  refine Or.inr ?_
  cases keys with
  | nil => exact absurd rfl hne
  | cons key keys =>
    rw [StateTree.derivedId, hpath, Dotted.join_cons_cons, id_of_parent_eq_none hg hm hparent]

variable (ht : t.KeysDistinct)
include ht

theorem referenceBelow_iff (hm : g.nodes[h]? = some m) (hid : m.explicitId = true) :
    g.ReferenceBelow h m j r ↔ ∃ (d : Node) (keys : List String), g.nodes[j]? = some d ∧
      keys ≠ [] ∧ d.path = m.path ++ keys ∧ r = m.id ++ "." ++ Dotted.join keys := by
  constructor
  · rintro ⟨-, -, d, hd, habove, rfl⟩
    obtain ⟨keys, hne, hpath⟩ := (above_iff hg ht hm hd).1 habove
    exact ⟨d, keys, hd, hne, hpath, by rw [Place.pathFrom_of_path hpath]⟩
  · rintro ⟨d, keys, hd, hne, hpath, rfl⟩
    have habove := (above_iff hg ht hm hd).2 ⟨keys, hne, hpath⟩
    exact ⟨hm, hid, d, hd, habove, by rw [Place.pathFrom_of_path hpath]⟩

/-- **A reference through a written id leads to the state that it names, unless the whole of it is a
name of its own.** A state that is known under the whole, be it by its written id or by the one its
path spells, is what is found. Where the id holds no dot, or is the root's, what is found is the
state at the end of the path, just where no other one is known under the whole. -/
theorem resolve?_referenceBelow (hkeys : t.SegmentKeys) (hr : g.ReferenceBelow h m j r) (i : Nat) :
    (∀ k, g.layout.Registered t.rootKey r k → g.layout.resolve? i ("#" ++ r) = some k) ∧
      ('.' ∉ m.id.toList ∨ m.parent = none →
        (g.layout.resolve? i ("#" ++ r) = some j ↔
          ∀ k, g.layout.Registered t.rootKey r k → k = j)) := by
  have hl := (ofTree?_eq_ok hg).1
  have hm := hr.holder
  obtain ⟨d, keys, hd, hne, hpath, rfl⟩ := (referenceBelow_iff hg ht hm hr.written).1 hr
  have hdotfree : ∀ key ∈ keys, '.' ∉ key.toList := fun key hkey =>
    (forall_mem_of_path hg hkeys hd hpath key hkey).2
  refine ⟨fun k hk => resolve?_of_registered hg hk, fun hid => ?_⟩
  refine resolve?_iff_of_not_registered hg fun hnone => ?_
  rcases hid with hdotless | hroot
  · -- cut at its first dot, the reference is the id and the keys of the path
    have hcut : Dotted.segments (m.id ++ "." ++ Dotted.join keys) = m.id :: keys := by
      rw [Dotted.segments_dot hdotless, Dotted.segments_join hne hdotfree]
    have hown := (StateTree.byId?_eq_some_iff hl).1 (StateTree.byId?_own hl (place_of_node hm))
    refine StateTree.resolve?_of_denotes hl ht (fun hq hempty => ?_)
      (.belowName hnone hcut hown (place_of_node hm) (place_of_node hd) hpath)
    obtain ⟨n, hn, rfl⟩ := node_of_place hq
    exact (forall_mem_path hg hkeys hn "" hempty).1 rfl
  · -- below the root the reference is a name: the one that the path spells
    obtain ⟨k, hk⟩ := Layout.exists_registered (place_of_node hd)
      (called_below_root hg hm hroot hne hpath)
    exact absurd hk (hnone k)

end Built

/-- A lift whose sign is called what the way to its moving cabin looks like. -/
def lift : StateTree :=
  .state { id := some "lift" } [
    ("cabin", .state { id := some "cabin" } [("moving", .empty), ("still", .empty)]),
    ("sign", .state { id := some "cabin.moving" } [("lit", .empty)])]

theorem keysDistinct_lift : lift.KeysDistinct := by
  simp [lift, StateTree.KeysDistinct, StateTree.KeysDistinctAll, StateTree.empty, Assoc.Distinct]

theorem segmentKeys_lift : lift.SegmentKeys := by
  simp only [lift, StateTree.empty, StateTree.SegmentKeys, StateTree.Everywhere,
    StateTree.EverywhereIn]
  decide

/-- The references through the id of the cabin. -/
theorem referenceBelow_lift : ∃ (g : Graph) (cabin : Node), ofTree? lift {} = .ok g ∧
    cabin.id = "cabin" ∧ g.ReferenceBelow 1 cabin 2 "cabin.moving" ∧
    g.ReferenceBelow 1 cabin 3 "cabin.still" := by
  obtain ⟨g, hg, hfacts⟩ := Outcome.exists_eq_ok (x := ofTree? lift {})
    (p := fun g => decide (g.nodes.map (fun n => (n.id, n.explicitId, n.path)) =
      [("lift", true, []), ("cabin", true, ["cabin"]),
        ("lift.cabin.moving", false, ["cabin", "moving"]),
        ("lift.cabin.still", false, ["cabin", "still"]),
        ("cabin.moving", true, ["sign"]), ("lift.sign.lit", false, ["sign", "lit"])]))
    (by decide +kernel)
  have hnodes := of_decide_eq_true hfacts
  have hreference {h j : Nat} {m d : Node} {key id : String} {path : List String}
      (hm : g.nodes[h]? = some m) (hd : g.nodes[j]? = some d)
      (hmf : (m.id, m.explicitId, m.path) = (id, true, path)) (hdpath : d.path = path ++ [key]) :
      g.ReferenceBelow h m j (id ++ "." ++ key) := by
    obtain ⟨rfl, hid, rfl⟩ : m.id = id ∧ m.explicitId = true ∧ m.path = path := by simpa using hmf
    refine (referenceBelow_iff hg keysDistinct_lift hm hid).2 ⟨d, [key], hd, by simp, hdpath, ?_⟩
    rw [Dotted.join_singleton]
  obtain ⟨cabin, hcabin, hc⟩ := exists_node_of_map (i := 1) hnodes rfl
  obtain ⟨moving, hmoving, hm⟩ := exists_node_of_map (i := 2) hnodes rfl
  obtain ⟨still, hstill, hs⟩ := exists_node_of_map (i := 3) hnodes rfl
  simp only [Prod.mk.injEq] at hm hs
  exact ⟨g, cabin, hg, (Prod.mk.inj hc).1, hreference hcabin hmoving hc hm.2.2,
    hreference hcabin hstill hc hs.2.2⟩

/-- The still cabin is found through the id of the cabin; under what would lead to the moving one
the sign is known. -/
theorem references_of_lift : ∃ g : Graph, ofTree? lift {} = .ok g ∧
    g.layout.resolve? 4 "#cabin.still" = some 3 ∧ g.layout.resolve? 4 "#cabin.moving" = some 4 := by
  obtain ⟨g, cabin, hg, hid, hmoving, hstill⟩ := referenceBelow_lift
  obtain ⟨g', hg', hids⟩ := Outcome.exists_eq_ok (x := ofTree? lift {})
    (p := fun g => decide (g.layout.byId? "cabin.still" = none ∧
      g.layout.byId? "cabin.moving" = some 4)) (by decide +kernel)
  obtain rfl := Except.ok.inj (hg.symm.trans hg')
  obtain ⟨hnone, hsign⟩ := of_decide_eq_true hids
  have hl := (ofTree?_eq_ok hg).1
  have hdotless : '.' ∉ cabin.id.toList := by rw [hid]; decide
  have hfound := resolve?_referenceBelow hg keysDistinct_lift segmentKeys_lift hstill 4
  have hother := resolve?_referenceBelow hg keysDistinct_lift segmentKeys_lift hmoving 4
  refine ⟨g, hg, (hfound.2 (Or.inl hdotless)).2 fun k hk => ?_, ?_⟩
  · exact absurd hk ((StateTree.byId?_eq_none_iff hl).1 hnone k)
  · exact hother.1 4 ((StateTree.byId?_eq_some_iff hl).1 hsign)

/-- **A reference on offer need not lead to the state that it was made for.** On the sign that of
the moving cabin leads to the sign itself, which is known under the whole. -/
theorem references_astray : lift.KeysDistinct ∧ lift.SegmentKeys ∧
    ∃ (g : Graph) (cabin : Node), ofTree? lift {} = .ok g ∧
      g.ReferenceBelow 1 cabin 2 "cabin.moving" ∧ "#cabin.moving" ∈ g.layout.targets 4 ∧
      g.layout.resolve? 4 "#cabin.moving" = some 4 := by
  obtain ⟨g, cabin, hg, -, hmoving, -⟩ := referenceBelow_lift
  obtain ⟨g', hg', htargets⟩ := Outcome.exists_eq_ok (x := ofTree? lift {})
    (p := fun g => decide ("#cabin.moving" ∈ g.layout.targets 4 ∧
      g.layout.resolve? 4 "#cabin.moving" = some 4)) (by decide +kernel)
  obtain rfl := Except.ok.inj (hg.symm.trans hg')
  obtain ⟨hoffered, hastray⟩ := of_decide_eq_true htargets
  exact ⟨keysDistinct_lift, segmentKeys_lift, g, cabin, hg, hmoving, hoffered, hastray⟩

/-! ## 3. Ids that hold a dot -/

section Built

variable (hg : ofTree? t provided = .ok g) (ht : t.KeysDistinct)
include hg ht

/-- **A reference through an id that holds a dot is cut inside the id.** Where the whole of it is no
name, it leads to its state just where what stands behind the first dot of the id is by chance the
path of the one that has the id, seen from a state that is known under what stands before. -/
theorem resolve?_iff_of_dotted_id (hkeys : t.SegmentKeys) (hr : g.ReferenceBelow h m j r)
    (hnone : ∀ k, ¬ g.layout.Registered t.rootKey r k) {front back : String}
    (hid : m.id = front ++ "." ++ back) (hfront : '.' ∉ front.toList) (i : Nat) :
    g.layout.resolve? i ("#" ++ r) = some j ↔ ∃ (k : Nat) (q : Node),
      g.layout.Registered t.rootKey front k ∧ g.nodes[k]? = some q ∧
        m.path = q.path ++ Dotted.segments back := by
  have hl := (ofTree?_eq_ok hg).1
  obtain ⟨d, keys, hd, hne, hpath, rfl⟩ := (referenceBelow_iff hg ht hr.holder hr.written).1 hr
  have hall := forall_mem_of_path hg hkeys hd hpath
  have hcut : Dotted.segments (m.id ++ "." ++ Dotted.join keys) =
      front :: (Dotted.segments back ++ keys) := by
    rw [Dotted.segments_append_dot, hid, Dotted.segments_dot hfront,
      Dotted.segments_join hne fun key hkey => (hall key hkey).2, List.cons_append]
  have hresolve : g.layout.resolve? i ("#" ++ (m.id ++ "." ++ Dotted.join keys)) =
      (g.layout.byId? front).bind fun k => g.layout.descend? k (Dotted.segments back ++ keys) := by
    rw [Layout.resolve?_hash, (StateTree.byId?_eq_none_iff hl).2 hnone, hcut, Option.none_or]
  rw [hresolve, Option.bind_eq_some_iff]
  constructor
  · intro hfound
    obtain ⟨k, hk, hdescend⟩ := hfound
    have hregistered := (StateTree.byId?_eq_some_iff hl).1 hk
    obtain ⟨p, hp, -⟩ := hregistered.1
    obtain ⟨q, hq, rfl⟩ := node_of_place hp
    obtain ⟨p', hp', hpath'⟩ := StateTree.path_of_descend? hl hp hdescend
    obtain rfl := Option.some.inj ((place_of_node hd).symm.trans hp')
    rw [← List.append_assoc] at hpath'
    exact ⟨k, q, hregistered, hq, List.append_cancel_right (hpath.symm.trans hpath')⟩
  · intro hway
    obtain ⟨k, q, hregistered, hq, hm⟩ := hway
    have hpath' : d.path = q.path ++ (Dotted.segments back ++ keys) := by
      rw [hpath, hm, List.append_assoc]
    have hnonempty : "" ∉ Dotted.segments back ++ keys := fun hempty =>
      (forall_mem_of_path hg hkeys hd hpath' "" hempty).1 rfl
    exact ⟨k, (StateTree.byId?_eq_some_iff hl).2 hregistered,
      StateTree.descend?_of_path hl ht (place_of_node hq) (place_of_node hd) hnonempty hpath'⟩

end Built

-- in the lift the lit sign is on offer through the id of the sign, and is not found through it
example : (ofTree? lift {}).toOption.any (fun g =>
    decide ("#cabin.moving.lit" ∈ g.layout.targets 4 ∧
      g.layout.resolve? 4 "#cabin.moving.lit" = none)) = true := by decide +kernel

end Graph

end Statechart
