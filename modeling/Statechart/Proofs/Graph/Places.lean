import Statechart.Graph.Build
import Statechart.Proofs.Graph.Located

/-!
# Places and the states they are made from

The list of places is the states of the tree in the order of their numbers: what stands at the
number of a state is the place of that state. From this follows what finding a place by keys
gives, and which places lie below one.
-/

namespace Statechart.StateTree

variable {t s : StateTree} {rootKey : String} {i : Nat} {path : List String}
  {parent : Option Nat}

/-! ## 1. The run of places of a state -/

mutual

theorem length_placesFrom (rootKey : String) (i : Nat) (path : List String)
    (parent : Option Nat) : (s : StateTree) → (placesFrom rootKey i path parent s).length = s.size
  | state d cs => by
    rw [placesFrom, List.length_cons, length_placesOfAll, size, Nat.add_comm]

theorem length_placesOfAll (rootKey : String) (next : Nat) (path : List String) (parent : Nat) :
    (cs : List (String × StateTree)) →
      (placesOfAll rootKey next path parent cs).length = sizeAll cs
  | [] => rfl
  | (key, c) :: rest => by
    rw [placesOfAll, List.length_append, length_placesFrom, length_placesOfAll, sizeAll]

end

theorem placesOfAll_append (rootKey : String) (next : Nat) (path : List String) (parent : Nat)
    (cs cs' : List (String × StateTree)) :
    placesOfAll rootKey next path parent (cs ++ cs') =
      placesOfAll rootKey next path parent cs ++
        placesOfAll rootKey (next + sizeAll cs) path parent cs' := by
  induction cs generalizing next with
  | nil => rfl
  | cons entry rest ih =>
    simp only [List.cons_append, placesOfAll, sizeAll, ih, List.append_assoc, Nat.add_assoc]

mutual

theorem depth_placesFrom (rootKey : String) (i : Nat) (path : List String) (parent : Option Nat) :
    (s : StateTree) → ∀ q ∈ placesFrom rootKey i path parent s, path.length ≤ q.1.depth
  | state d cs, q, hq => by
    rw [placesFrom] at hq
    rcases List.mem_cons.1 hq with rfl | hq
    · exact Nat.le_refl _
    · exact Nat.le_of_lt (depth_placesOfAll rootKey (i + 1) path i cs q hq)

/-- What lies below a state is deeper than the state. -/
theorem depth_placesOfAll (rootKey : String) (next : Nat) (path : List String) (parent : Nat) :
    (cs : List (String × StateTree)) →
      ∀ q ∈ placesOfAll rootKey next path parent cs, path.length < q.1.depth
  | [], _, hq => by cases hq
  | (key, c) :: rest, q, hq => by
    rw [placesOfAll] at hq
    rcases List.mem_append.1 hq with hq | hq
    · have := depth_placesFrom rootKey next (path ++ [key]) (some parent) c q hq
      rw [List.length_append, List.length_singleton] at this
      omega
    · exact depth_placesOfAll rootKey (next + c.size) path parent rest q hq

end

/-- **The places of a state and of all below it are one run of the list**, and no deeper place
comes right after it. -/
theorem Located.run (h : Located t i path parent s) :
    ∃ before after, t.placesWithDecls =
        before ++ (placesFrom t.rootKey i path parent s ++ after) ∧
      before.length = i ∧ ∀ q ∈ after.head?, q.1.depth ≤ path.length := by
  induction h with
  | root => exact ⟨[], [], by rw [List.append_nil]; rfl, rfl, by simp⟩
  | @child i path parent d key c before after h ih =>
    obtain ⟨pre, post, hps, hlen, hpost⟩ := ih
    rw [placesFrom, placesOfAll_append, placesOfAll] at hps
    refine ⟨pre ++ (placeAt t.rootKey i path parent (state d (before ++ (key, c) :: after)), d) ::
        placesOfAll t.rootKey (i + 1) path i before,
      placesOfAll t.rootKey (i + 1 + sizeAll before + c.size) path i after ++ post, ?_, ?_, ?_⟩
    · rw [hps]
      simp only [List.append_assoc, List.cons_append]
    · rw [List.length_append, List.length_cons, length_placesOfAll, hlen]
      omega
    · -- the next place is that of a younger sibling, or else the one after the parent's run
      intro q hq
      rw [List.length_append, List.length_singleton]
      cases after with
      | nil =>
        have := hpost q (by simpa [placesOfAll] using hq)
        omega
      | cons entry rest =>
        obtain ⟨key', t', cs'⟩ := entry
        rw [placesOfAll, placesFrom] at hq
        obtain rfl : _ = q := by simpa using hq
        simp [Place.depth, placeAt]

/-! ## 2. The place of a number -/

/-- **What stands at the number of a state is its place.** -/
theorem Located.getElem? (h : Located t i path parent s) :
    t.placesWithDecls[i]? = some (placeAt t.rootKey i path parent s, s.decl) := by
  obtain ⟨before, after, hps, rfl, -⟩ := h.run
  cases s with
  | state d cs =>
    rw [hps, List.getElem?_append_right (Nat.le_refl _), Nat.sub_self, placesFrom]
    rfl

theorem length_placesWithDecls (t : StateTree) : t.placesWithDecls.length = t.size :=
  length_placesFrom t.rootKey 0 [] none t

/-- The number of a child is that of the state found under its key. -/
theorem lookup_numberSiblings {cs : Assoc StateTree} {next j : Nat} {key : String} :
    (numberSiblings next cs).lookup key = some j ↔
      ∃ before c after, cs = before ++ (key, c) :: after ∧ key ∉ Assoc.keys before ∧
        j = next + sizeAll before := by
  induction cs generalizing next with
  | nil => simp [numberSiblings]
  | cons entry rest ih =>
    obtain ⟨key', c'⟩ := entry
    rw [numberSiblings, List.lookup_cons]
    by_cases hk : key = key'
    · subst hk
      simp only [beq_self_eq_true]
      constructor
      · intro hj
        exact ⟨[], c', rest, rfl, by simp, by simpa [sizeAll] using hj.symm⟩
      · rintro ⟨before, c, after, hcs, hbefore, rfl⟩
        cases before with
        | nil => simp [sizeAll]
        | cons e before =>
          obtain ⟨rfl, -⟩ := List.cons.inj hcs
          simp at hbefore
    · have hk' : (key == key') = false := by simpa using hk
      simp only [hk', ih]
      constructor
      · rintro ⟨before, c, after, rfl, hbefore, rfl⟩
        refine ⟨(key', c') :: before, c, after, rfl, by simp [hk, hbefore], ?_⟩
        rw [sizeAll, Nat.add_assoc]
      · rintro ⟨before, c, after, hcs, hbefore, rfl⟩
        cases before with
        | nil => exact absurd (Prod.mk.inj (List.cons.inj hcs).1).1.symm hk
        | cons e before =>
          obtain ⟨rfl, rfl⟩ := List.cons.inj hcs
          refine ⟨before, c, after, rfl, by simp_all, ?_⟩
          rw [sizeAll, Nat.add_assoc]

theorem exists_of_mem_numberSiblings {cs : List (String × StateTree)} {next j : Nat}
    {key : String} (h : (key, j) ∈ numberSiblings next cs) :
    ∃ before c after, cs = before ++ (key, c) :: after ∧ j = next + sizeAll before := by
  induction cs generalizing next with
  | nil => cases h
  | cons entry rest ih =>
    obtain ⟨key', c'⟩ := entry
    rw [numberSiblings] at h
    rcases List.mem_cons.1 h with h | h
    · obtain ⟨rfl, rfl⟩ := Prod.mk.inj h
      exact ⟨[], c', rest, rfl, rfl⟩
    · obtain ⟨before, c, after, rfl, rfl⟩ := ih h
      refine ⟨(key', c') :: before, c, after, rfl, ?_⟩
      rw [sizeAll, Nat.add_assoc]

/-- The numbers beside the keys are those of the children. -/
theorem Located.of_mem_states (h : Located t i path parent s) {key : String} {j : Nat}
    (hj : (key, j) ∈ (placeAt t.rootKey i path parent s).states) :
    ∃ c, Located t j (path ++ [key]) (some i) c := by
  cases s with
  | state d cs =>
    obtain ⟨before, c, after, rfl, rfl⟩ := exists_of_mem_numberSiblings hj
    exact ⟨c, .child before after h⟩

/-- A number under a key belongs to the child under that key. -/
theorem Located.of_lookup_states (h : Located t i path parent s) {key : String} {j : Nat}
    (hj : (placeAt t.rootKey i path parent s).states.lookup key = some j) :
    ∃ c, s.children.lookup key = some c ∧ Located t j (path ++ [key]) (some i) c := by
  cases s with
  | state d cs =>
    obtain ⟨before, c, after, rfl, hbefore, rfl⟩ := lookup_numberSiblings.1 hj
    exact ⟨c, Assoc.lookup_eq_some_iff.2 ⟨before, after, rfl, hbefore⟩, .child before after h⟩

/-- Every child has a number under its key. -/
theorem Located.exists_lookup_states (h : Located t i path parent s) {key : String} {c : StateTree}
    (hc : s.children.lookup key = some c) :
    ∃ j, (placeAt t.rootKey i path parent s).states.lookup key = some j ∧
      Located t j (path ++ [key]) (some i) c := by
  cases s with
  | state d cs =>
    obtain ⟨before, after, rfl, hbefore⟩ := Assoc.lookup_eq_some_iff.1 hc
    exact ⟨_, lookup_numberSiblings.2 ⟨before, c, after, rfl, hbefore, rfl⟩,
      .child before after h⟩

/-! ## 3. Finding places by keys -/

section Layout

variable {l : Layout} (hl : l.places = t.placesWithDecls.map Prod.fst)
include hl

theorem Located.place (h : Located t i path parent s) :
    l.places[i]? = some (placeAt t.rootKey i path parent s) := by
  rw [hl, List.getElem?_map, h.getElem?]
  rfl

/-- A place with a number is that of some state. -/
theorem located_of_place {p : Place} (hp : l.places[i]? = some p) :
    ∃ path parent s, Located t i path parent s ∧ p = placeAt t.rootKey i path parent s := by
  have hi : i < t.size := by
    rw [hl] at hp
    have := (List.getElem?_eq_some_iff.1 hp).1
    rwa [List.length_map, length_placesWithDecls] at this
  obtain ⟨path, parent, s, h⟩ := exists_located t hi
  exact ⟨path, parent, s, h, Option.some.inj (hp.symm.trans (h.place hl))⟩

theorem Located.of_child? (h : Located t i path parent s) {key : String} {j : Nat}
    (hj : l.child? i key = some j) :
    key ≠ "" ∧ ∃ c, s.children.lookup key = some c ∧ Located t j (path ++ [key]) (some i) c := by
  rw [Layout.child?, h.place hl] at hj
  split at hj
  · cases hj
  · next hk => exact ⟨hk, h.of_lookup_states hj⟩

theorem Located.exists_child? (h : Located t i path parent s) {key : String} (hk : key ≠ "")
    {c : StateTree} (hc : s.children.lookup key = some c) :
    ∃ j, l.child? i key = some j ∧ Located t j (path ++ [key]) (some i) c := by
  obtain ⟨j, hj, hjc⟩ := h.exists_lookup_states hc
  refine ⟨j, ?_, hjc⟩
  rw [Layout.child?, if_neg hk, h.place hl]
  exact hj

/-- **Following keys leads to the state at the end of them**, and no key on the way is empty. -/
theorem Located.of_descend? (h : Located t i path parent s) {keys : List String} {j : Nat}
    (hj : l.descend? i keys = some j) :
    "" ∉ keys ∧ ∃ parent' s', s.at? keys = some s' ∧ Located t j (path ++ keys) parent' s' := by
  induction keys generalizing i path parent s with
  | nil =>
    obtain rfl := Option.some.inj hj
    exact ⟨by simp, parent, s, rfl, by rwa [List.append_nil]⟩
  | cons key keys ih =>
    obtain ⟨k, hk, hj⟩ := Option.bind_eq_some_iff.1 hj
    obtain ⟨hkey, c, hc, hlc⟩ := h.of_child? hl hk
    obtain ⟨hkeys, parent', s', hs', hls'⟩ := ih hlc hj
    refine ⟨by simp [hkey.symm, hkeys], parent', s', ?_, by rwa [List.append_assoc] at hls'⟩
    rw [at?, hc]
    exact hs'

/-- Where keys lead to a state and none is empty, following them finds it. -/
theorem Located.exists_descend? (h : Located t i path parent s) {keys : List String}
    {s' : StateTree} (hkeys : "" ∉ keys) (hs' : s.at? keys = some s') :
    ∃ j parent', l.descend? i keys = some j ∧ Located t j (path ++ keys) parent' s' := by
  induction keys generalizing i path parent s with
  | nil =>
    obtain rfl := Option.some.inj hs'
    exact ⟨i, parent, rfl, by rwa [List.append_nil]⟩
  | cons key keys ih =>
    obtain ⟨hkey, hkeys⟩ := List.ne_and_not_mem_of_not_mem_cons hkeys
    obtain ⟨c, hc, hs'⟩ := Option.bind_eq_some_iff.1 hs'
    obtain ⟨k, hk, hlc⟩ := h.exists_child? hl hkey.symm hc
    obtain ⟨j, parent', hj, hls'⟩ := ih hlc hkeys hs'
    refine ⟨j, parent', ?_, by rwa [List.append_assoc] at hls'⟩
    rw [Layout.descend?, hk]
    exact hj

/-! ## 4. What lies below a place -/

/-- **The places of a state and of those below it are the numbers from its own on.** -/
theorem Located.below_eq (h : Located t i path parent s) :
    l.below i = List.range' i s.size := by
  obtain ⟨before, after, hps, hlen, hafter⟩ := h.run
  cases s with
  | state d cs =>
    -- the run of the state is its own place and then only deeper ones
    have hdrop : l.places.drop (i + 1) =
        (placesOfAll t.rootKey (i + 1) path i cs).map Prod.fst ++ after.map Prod.fst := by
      rw [hl, hps, placesFrom, ← hlen, List.map_append, List.cons_append, List.map_cons]
      rw [List.drop_append, List.drop_of_length_le (by simp)]
      simp
    have hdeep : ∀ q ∈ (placesOfAll t.rootKey (i + 1) path i cs).map Prod.fst,
        decide (path.length < q.depth) = true := by
      intro q hq
      obtain ⟨pd, hpd, rfl⟩ := List.mem_map.1 hq
      exact decide_eq_true (depth_placesOfAll _ _ _ _ cs pd hpd)
    have hstop : (after.map Prod.fst).takeWhile (fun q => decide (path.length < q.depth)) = [] := by
      cases after with
      | nil => rfl
      | cons q rest =>
        have hq : q.1.depth ≤ path.length := hafter q (by simp)
        simp [hq]
    have hplace : (placeAt t.rootKey i path parent (state d cs)).depth = path.length := rfl
    rw [Layout.below, h.place hl]
    simp only [hplace, hdrop, List.takeWhile_append_of_pos hdeep, hstop, List.append_nil,
      List.length_map, length_placesOfAll]
    rw [size, Nat.add_comm 1, List.range'_succ]

end Layout

end Statechart.StateTree
