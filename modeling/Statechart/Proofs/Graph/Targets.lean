import Statechart.Graph.Targets
import Statechart.Proofs.Graph.Transitions

/-!
# Targets on offer lead where they say

A target on offer says where it leads: to a path below the parent, to a path below the state
itself, or to a state with a written id or a path below it. Main statement: where keys and written
ids hold none of the marks that cut targets, looking a target up that is on offer finds just the
state it names, and no target without `#` leads above its source.
-/

namespace Statechart

/-! ## 1. What a target on offer names -/

/-- A key that a target can be cut back into: there is something to it, it holds no dot, and it
does not start with `#`. -/
def PlainKey (key : String) : Prop :=
  key ≠ "" ∧ '.' ∉ key.toList ∧ key.toList.head? ≠ some '#'

/-- All keys of states are plain, and no written id holds a dot. -/
structure StateTree.PlainNames (t : StateTree) : Prop where
  keys : t.Everywhere fun _ cs => ∀ key ∈ cs.keys, PlainKey key
  ids : t.Everywhere fun d _ => ∀ id, d.id = some id → '.' ∉ id.toList

namespace Layout

variable {l : Layout} {i j : Nat}

/-- **The text, on offer at the place `i`, names the place `j`.** -/
inductive Names (l : Layout) (i : Nat) : String → Nat → Prop
  /-- A bare text is a path below the parent. -/
  | bare {text : String} {parent j : Nat} {p b q : Place} (hbare : Dotted.Bare text)
      (hp : l.places[i]? = some p) (hparent : p.parent = some parent)
      (hb : l.places[parent]? = some b) (hq : l.places[j]? = some q)
      (hpath : q.path = b.path ++ Dotted.segments text) : Names l i text j
  /-- After a dot stands a path below the place itself. -/
  | inner {relative : String} {p q : Place} {j : Nat} (hp : l.places[i]? = some p)
      (hq : l.places[j]? = some q) (hpath : q.path = p.path ++ Dotted.segments relative) :
      Names l i ("." ++ relative) j
  /-- After `#` stands a written id, -/
  | byId {j : Nat} {q : Place} (hq : l.places[j]? = some q) (hid : q.explicitId = true) :
      Names l i ("#" ++ q.id) j
  /-- or one and a path below its place. -/
  | belowId {relative : String} {h j : Nat} {p q : Place} (hp : l.places[h]? = some p)
      (hid : p.explicitId = true) (hq : l.places[j]? = some q)
      (hpath : q.path = p.path ++ Dotted.segments relative) :
      Names l i ("#" ++ (p.id ++ "." ++ relative)) j

/-- The place `j` stands right above `i`. -/
def ParentOf (l : Layout) (j i : Nat) : Prop := ∃ p, l.places[i]? = some p ∧ p.parent = some j

/-- The place `j` stands above `i`, by one step or more. -/
def Above (l : Layout) : Nat → Nat → Prop := Relation.TransGen l.ParentOf

end Layout

namespace StateTree

variable {t s : StateTree} {l : Layout} {i : Nat} {path : List String} {parent : Option Nat}

/-! ## 2. The paths on offer -/

section Below

variable (hl : l.places = t.placesWithDecls.map Prod.fst) (hd : t.KeysDistinct)
include hl hd

/-- **Strictly below a state are the places whose paths go on from its own.** -/
theorem Located.of_mem_tail_below (h : Located t i path parent s) {j : Nat}
    (hj : j ∈ (l.below i).tail) :
    ∃ rel parent' s', rel ≠ [] ∧ Located t j (path ++ rel) parent' s' := by
  rw [h.below_eq hl, List.tail_range', List.mem_range'_1] at hj
  obtain ⟨rel, parent', s', h'⟩ := h.exists_add (j - i) (by omega)
  rw [show i + (j - i) = j by omega] at h'
  refine ⟨rel, parent', s', ?_, h'⟩
  rintro rfl
  rw [List.append_nil] at h'
  have := (h.number_unique hd.everywhere h').1
  omega

/-- A path that is offered below a state is that of a place below it, some first keys left out. -/
theorem Located.of_mem_pathsBelow (h : Located t i path parent s) {depth : Nat} {text : String}
    (htext : text ∈ l.pathsBelow i depth) :
    ∃ j rel parent' s', rel ≠ [] ∧ Located t j (path ++ rel) parent' s' ∧
      text = Dotted.join ((path ++ rel).drop depth) := by
  obtain ⟨q, hq, rfl⟩ := List.mem_map.1 htext
  obtain ⟨j, hj, hjq⟩ := List.mem_filterMap.1 hq
  obtain ⟨rel, parent', s', hrel, h'⟩ := h.of_mem_tail_below hl hd hj
  obtain rfl := Option.some.inj (hjq.symm.trans (h'.place hl))
  exact ⟨j, rel, parent', s', hrel, h', rfl⟩

end Below

/-! ## 3. What is on offer names a place -/

section Plain

variable (hplain : t.PlainNames)
include hplain

theorem Located.plainKey (h : Located t i path parent s) : ∀ key ∈ path, PlainKey key :=
  h.forall_mem_path hplain.keys

/-- A path of plain keys is cut back into them. -/
theorem Located.segments_join (h : Located t i path parent s) {keys : List String}
    (hne : keys ≠ []) (hkeys : ∀ key ∈ keys, key ∈ path) :
    Dotted.segments (Dotted.join keys) = keys :=
  Dotted.segments_join hne fun key hkey => (h.plainKey hplain key (hkeys key hkey)).2.1

/-- A path of plain keys starts with no mark. -/
theorem Located.bare_join (h : Located t i path parent s) {key : String} {keys : List String}
    (hkey : key ∈ path) : Dotted.Bare (Dotted.join (key :: keys)) := by
  obtain ⟨hne, hdot, hhash⟩ := h.plainKey hplain key hkey
  rw [Dotted.Bare, Dotted.head?_join hne]
  refine ⟨hhash, fun hhead => hdot ?_⟩
  exact List.mem_of_head? hhead

variable (hl : l.places = t.placesWithDecls.map Prod.fst)
include hl

/-- What lies below the parent is named from there. -/
theorem Located.names_bare {i₀ j : Nat} {path₀ : List String} {parent₀ parent' : Option Nat}
    {s₀ s' : StateTree} (h : Located t i path (some i₀) s) (h₀ : Located t i₀ path₀ parent₀ s₀)
    {key : String} {keys : List String} (h' : Located t j (path₀ ++ key :: keys) parent' s') :
    l.Names i (Dotted.join (key :: keys)) j := by
  refine .bare (h'.bare_join hplain (by simp)) (h.place hl) rfl (h₀.place hl) (h'.place hl) ?_
  rw [h'.segments_join hplain (List.cons_ne_nil _ _) fun key' hkey' => by simp_all]
  rfl

variable (hd : t.KeysDistinct)
include hd

/-- The siblings and what lies below them are named from the parent. -/
theorem Located.names_of_mem_siblingTargets (h : Located t i path parent s) {text : String}
    (htext : text ∈ l.siblingTargets (placeAt t.rootKey i path parent s)) :
    ∃ j, l.Names i text j := by
  unfold Layout.siblingTargets at htext
  have hparent : (placeAt t.rootKey i path parent s).parent = parent := rfl
  rw [hparent] at htext
  cases parent with
  | none => cases htext
  | some i₀ =>
    obtain ⟨-, path₀, key₀, parent₀, s₀, -, h₀, -⟩ := h.of_parent
    rw [Option.bind_some, h₀.place hl] at htext
    rcases List.mem_append.1 htext with hkey | hbelow
    · obtain ⟨⟨key, j⟩, hentry, rfl⟩ := List.mem_map.1 hkey
      obtain ⟨c, hc⟩ := h₀.of_mem_states hentry
      have hnames := h.names_bare hplain hl h₀ hc
      rw [Dotted.join_singleton] at hnames
      exact ⟨j, hnames⟩
    · obtain ⟨⟨key, k⟩, hentry, htext⟩ := List.mem_flatMap.1 hbelow
      obtain ⟨c, hc⟩ := h₀.of_mem_states hentry
      obtain ⟨j, rel, parent', s', -, h', rfl⟩ := hc.of_mem_pathsBelow hl hd htext
      rw [List.append_assoc] at h'
      have hdepth : (placeAt t.rootKey i₀ path₀ parent₀ s₀).depth = path₀.length := rfl
      rw [hdepth, List.append_assoc, List.drop_left]
      exact ⟨j, h.names_bare hplain hl h₀ h'⟩

/-- What lies below a state is named with a dot in front. -/
theorem Located.names_of_mem_childTargets (h : Located t i path parent s) {text : String}
    (htext : text ∈ l.childTargets i (placeAt t.rootKey i path parent s)) :
    ∃ j, l.Names i text j := by
  obtain ⟨relative, hrelative, rfl⟩ := List.mem_map.1 htext
  obtain ⟨j, rel, parent', s', hrel, h', rfl⟩ := h.of_mem_pathsBelow hl hd hrelative
  have hdepth : (placeAt t.rootKey i path parent s).depth = path.length := rfl
  rw [hdepth, List.drop_left]
  refine ⟨j, .inner (h.place hl) (h'.place hl) ?_⟩
  rw [h'.segments_join hplain hrel fun key hkey => List.mem_append_right path hkey]
  rfl

/-- What a written id leads to is named by it. -/
theorem Located.names_of_mem_idTargets {k : Nat} (h : Located t k path parent s) {text : String}
    (htext : text ∈ l.idTargets k (placeAt t.rootKey k path parent s)) :
    ∃ j, l.Names i text j := by
  unfold Layout.idTargets at htext
  split at htext
  · next hid =>
    rcases List.mem_append.1 htext with hself | hbelow
    · split at hself
      · cases hself
      · obtain rfl := List.mem_singleton.1 hself
        exact ⟨k, .byId (h.place hl) hid⟩
    · obtain ⟨relative, hrelative, rfl⟩ := List.mem_map.1 hbelow
      obtain ⟨j, rel, parent', s', hrel, h', rfl⟩ := h.of_mem_pathsBelow hl hd hrelative
      have hdepth : (placeAt t.rootKey k path parent s).depth = path.length := rfl
      have hcut (id rest : String) : "#" ++ id ++ "." ++ rest = "#" ++ (id ++ "." ++ rest) := by
        simp only [String.append_assoc]
      rw [hdepth, List.drop_left, hcut]
      refine ⟨j, .belowId (h.place hl) hid (h'.place hl) ?_⟩
      rw [h'.segments_join hplain hrel fun key hkey => List.mem_append_right path hkey]
      rfl
  · cases htext

/-- **Every text on offer names a place.** -/
theorem names_of_mem_targets {text : String} (htext : text ∈ l.targets i) :
    ∃ j, l.Names i text j := by
  unfold Layout.targets at htext
  cases hp : l.places[i]? with
  | none =>
    rw [hp] at htext
    cases htext
  | some p =>
    obtain ⟨path, parent, s, h, rfl⟩ := located_of_place hl hp
    rw [hp] at htext
    have hall : text ∈ l.siblingTargets (placeAt t.rootKey i path parent s) ++
        l.childTargets i (placeAt t.rootKey i path parent s) ++
          l.places.zipIdx.flatMap fun entry => l.idTargets entry.2 entry.1 := by
      dsimp only at htext
      split at htext
      · exact List.mem_eraseDups.1 (List.mem_filter.1 htext).1
      · exact List.mem_eraseDups.1 htext
    rcases List.mem_append.1 hall with hown | hids
    · rcases List.mem_append.1 hown with hsibling | hchild
      · exact h.names_of_mem_siblingTargets hplain hl hd hsibling
      · exact h.names_of_mem_childTargets hplain hl hd hchild
    · obtain ⟨⟨q, k⟩, hq, htext⟩ := List.mem_flatMap.1 hids
      rw [List.mem_zipIdx_iff_getElem?] at hq
      have hq' : l.places[k]? = some q := hq
      obtain ⟨path', parent', s', h', rfl⟩ := located_of_place hl hq'
      exact h'.names_of_mem_idTargets hplain hl hd htext

end Plain

/-! ## 4. What is named is found -/

theorem not_mem_rootKey (hplain : t.PlainNames) : '.' ∉ t.rootKey.toList := by
  unfold rootKey
  cases hid : t.decl.id with
  | none => decide
  | some id => exact hplain.ids.here id hid

section Layout

variable (hl : t.layout? = .ok l)
include hl

/-- The state whose id is the root's key is the root. -/
theorem path_of_id_eq_rootKey {p : Place} (hp : l.places[i]? = some p) (h : p.id = t.rootKey) :
    p.path = [] := by
  have h₀ := (Located.root (t := t)).place (places_of_layout? hl)
  have hroot : (placeAt t.rootKey 0 [] none t).id = t.rootKey := by
    show t.decl.id.getD (Dotted.join [t.rootKey]) = t.rootKey
    rw [Dotted.join_singleton, rootKey]
    cases t.decl.id <;> rfl
  obtain rfl := id_injective hl hp h₀ (by rw [h, hroot])
  obtain rfl := Option.some.inj (hp.symm.trans h₀)
  rfl

variable (hplain : t.PlainNames)
include hplain

theorem plainKey_of_place {p : Place} (hp : l.places[i]? = some p) :
    ∀ key ∈ p.path, PlainKey key := by
  obtain ⟨path, parent, s, h, rfl⟩ := located_of_place (places_of_layout? hl) hp
  exact h.plainKey hplain

/-- A written id holds no dot. -/
theorem not_mem_id {p : Place} (hp : l.places[i]? = some p) (hid : p.explicitId = true) :
    '.' ∉ p.id.toList := by
  obtain ⟨path, parent, s, h, rfl⟩ := located_of_place (places_of_layout? hl) hp
  obtain ⟨id, hs⟩ := Option.isSome_iff_exists.1 hid
  have hid' : (placeAt t.rootKey i path parent s).id = id := by
    show s.decl.id.getD _ = id
    rw [hs, Option.getD_some]
  rw [hid']
  exact (h.everywhere_of hplain.ids).here id hs

/-- A place that is called by a name with a dot spells it by its path: the first key of the name
is the root's, and the others lead to the place. -/
theorem segments_of_called {p : Place} (hp : l.places[i]? = some p) {head relative : String}
    (hhead : '.' ∉ head.toList) (h : p.Called t.rootKey (head ++ "." ++ relative)) :
    head = t.rootKey ∧ p.path = Dotted.segments relative := by
  have hderived : derivedId t.rootKey p.path = head ++ "." ++ relative := by
    rcases h with hid | hder
    · cases hex : p.explicitId with
      | true =>
        refine absurd ?_ (not_mem_id hl hplain hp hex)
        rw [hid, String.toList_append, String.toList_append]
        simp
      | false =>
        -- an id that is not written is the derived one
        obtain ⟨path, parent, s, -, rfl⟩ := located_of_place (places_of_layout? hl) hp
        have hnone : s.decl.id = none :=
          Option.isNone_iff_eq_none.1 (Option.isSome_eq_false_iff.1 hex)
        rw [← hid]
        show derivedId t.rootKey path = s.decl.id.getD _
        rw [hnone, Option.getD_none]
    · exact hder
  have hsegments := congrArg Dotted.segments hderived
  rw [derivedId, Dotted.segments_dot hhead, Dotted.segments_join (List.cons_ne_nil _ _)] at hsegments
  · obtain ⟨hroot, hpath⟩ := List.cons.inj hsegments
    exact ⟨hroot.symm, hpath⟩
  · intro key hkey
    rcases List.mem_cons.1 hkey with rfl | hkey
    · exact not_mem_rootKey hplain
    · exact (plainKey_of_place hl hplain hp key hkey).2.1

/-- **The place that a text on offer names is the one that it denotes as a target.** No name that
is derived from a path comes in between. -/
theorem denotes_of_names (hd : t.KeysDistinct) {text : String} {j : Nat}
    (h : l.Names i text j) : l.Denotes t.rootKey i text j := by
  cases h with
  | bare hbare hp hparent hb hq hpath =>
    refine .bare hbare hp hq ?_
    rw [hpath, Layout.basePath, hparent, Option.bind_some, hb]
  | inner hp hq hpath => exact .inner hp hq hpath
  | byId hq hid => exact .byName ((byId?_eq_some_iff hl).1 (byId?_own hl hq))
  | @belowId relative h j p q hp hid hq hpath =>
    have hdot := not_mem_id hl hplain hp hid
    by_cases hr : ∃ k, l.Registered t.rootKey (p.id ++ "." ++ relative) k
    · -- a place that spells the whole by its path stands where the path below the id leads
      obtain ⟨k, hk⟩ := hr
      obtain ⟨q', hq', hcalled⟩ := hk.1
      obtain ⟨hroot, hpath'⟩ := segments_of_called hl hplain hq' hdot hcalled
      rw [path_of_id_eq_rootKey hl hp hroot, List.nil_append, ← hpath'] at hpath
      obtain rfl := path_injective hl hd hq hq' hpath
      exact .byName hk
    · exact .belowName (fun k hk => hr ⟨k, hk⟩) (Dotted.segments_dot hdot relative)
        ((byId?_eq_some_iff hl).1 (byId?_own hl hp)) hp hq hpath

end Layout

/-! ## 5. Nothing above is on offer -/

theorem depth_of_parentOf (hl : l.places = t.placesWithDecls.map Prod.fst) {j : Nat}
    (h : l.ParentOf j i) : ∃ q p, l.places[j]? = some q ∧ l.places[i]? = some p ∧
      p.depth = q.depth + 1 := by
  obtain ⟨p, hp, hparent⟩ := h
  obtain ⟨path, parent, s, hs, rfl⟩ := located_of_place hl hp
  obtain rfl : parent = some j := hparent
  obtain ⟨-, path₀, key, parent₀, s₀, rfl, h₀, -⟩ := hs.of_parent
  refine ⟨_, _, h₀.place hl, hp, ?_⟩
  show (path₀ ++ [key]).length = path₀.length + 1
  rw [List.length_append, List.length_singleton]

/-- What stands above is less deep. -/
theorem depth_of_above (hl : l.places = t.placesWithDecls.map Prod.fst) {j : Nat}
    (h : l.Above j i) : ∃ q p, l.places[j]? = some q ∧ l.places[i]? = some p ∧
      q.depth < p.depth := by
  induction h with
  | single h =>
    obtain ⟨q, p, hq, hp, hdepth⟩ := depth_of_parentOf hl h
    exact ⟨q, p, hq, hp, by omega⟩
  | tail _ h ih =>
    obtain ⟨q, b, hq, hb, hlt⟩ := ih
    obtain ⟨b', p, hb', hp, hdepth⟩ := depth_of_parentOf hl h
    obtain rfl := Option.some.inj (hb.symm.trans hb')
    exact ⟨q, p, hq, hp, by omega⟩

/-- A text without `#` names nothing that is less deep than its source. -/
theorem depth_of_names (hl : l.places = t.placesWithDecls.map Prod.fst) {text : String} {j : Nat}
    (htext : ∀ r, text ≠ "#" ++ r) (h : l.Names i text j) :
    ∃ p q, l.places[i]? = some p ∧ l.places[j]? = some q ∧ p.depth ≤ q.depth := by
  cases h with
  | bare hbare hp hparent hb hq hpath =>
    obtain ⟨b', p', hb', hp', hdepth⟩ := depth_of_parentOf hl ⟨_, hp, hparent⟩
    obtain rfl := Option.some.inj (hb.symm.trans hb')
    obtain rfl := Option.some.inj (hp.symm.trans hp')
    refine ⟨_, _, hp, hq, ?_⟩
    have hpos := List.length_pos_iff.2 (Dotted.segments_ne_nil text)
    rw [hdepth, Place.depth, Place.depth, hpath, List.length_append]
    omega
  | inner hp hq hpath =>
    refine ⟨_, _, hp, hq, ?_⟩
    rw [Place.depth, Place.depth, hpath, List.length_append]
    omega
  | byId => exact absurd rfl (htext _)
  | belowId => exact absurd rfl (htext _)

end StateTree

/-! ## 6. Targets on offer are sound -/

/-- **Every target on offer is found, and what is found is the one place that it names**; where it
does not start with `#`, that place does not stand above its source. -/
theorem Graph.resolve?_of_mem_targets {t : StateTree} {provided : Provided} {g : Graph}
    (ht : t.KeysDistinct) (hplain : t.PlainNames) (hg : ofTree? t provided = .ok g) {i : Nat}
    {text : String} (htext : text ∈ g.layout.targets i) :
    ∃ j, g.layout.resolve? i text = some j ∧ (∀ k, g.layout.Names i text k ↔ k = j) ∧
      ((∀ r, text ≠ "#" ++ r) → ¬ g.layout.Above j i) := by
  have hl := (ofTree?_eq_ok hg).1
  have hpl := StateTree.places_of_layout? hl
  obtain ⟨j, hj⟩ := StateTree.names_of_mem_targets hplain hpl ht htext
  have hdenotes := StateTree.denotes_of_names hl hplain ht hj
  refine ⟨j, StateTree.resolve?_of_denotes hl ht ?_ hdenotes, fun k => ⟨fun hk => ?_, ?_⟩, ?_⟩
  · intro j q hq hempty
    exact (StateTree.plainKey_of_place hl hplain hq _ hempty).1 rfl
  · exact StateTree.denotes_unique hl ht (StateTree.denotes_of_names hl hplain ht hk) hdenotes
  · rintro rfl
    exact hj
  · intro hhash habove
    obtain ⟨p, q, hp, hq, hle⟩ := StateTree.depth_of_names hpl hhash hj
    obtain ⟨q', p', hq', hp', hlt⟩ := StateTree.depth_of_above hpl habove
    obtain rfl := Option.some.inj (hp.symm.trans hp')
    obtain rfl := Option.some.inj (hq.symm.trans hq')
    omega

theorem plainNames_door : Graph.door.PlainNames := by
  refine ⟨?_, ?_⟩
  · simp only [Graph.door, StateTree.empty, StateTree.Everywhere, StateTree.EverywhereIn, PlainKey]
    decide
  · simp [Graph.door, StateTree.empty, StateTree.Everywhere, StateTree.EverywhereIn]

theorem resolve?_ajar_door : ∃ (g : Graph) (j : Nat), Graph.ofTree? Graph.door {} = .ok g ∧
    "opened.ajar" ∈ g.layout.targets 1 ∧ g.layout.resolve? 1 "opened.ajar" = some j ∧
      ¬ g.layout.Above j 1 := by
  obtain ⟨g, hg, hmem⟩ := Outcome.exists_eq_ok (show (Graph.ofTree? Graph.door {}).toOption.any
    (fun g => decide ("opened.ajar" ∈ g.layout.targets 1)) = true by decide +kernel)
  have htext := of_decide_eq_true hmem
  have hbare : Dotted.Bare "opened.ajar" := by decide
  obtain ⟨j, hj, -, habove⟩ :=
    Graph.resolve?_of_mem_targets Graph.keysDistinct_door plainNames_door hg htext
  exact ⟨g, j, hg, htext, hj, habove fun r hr => Dotted.not_bare_hash r (hr ▸ hbare)⟩

end Statechart
