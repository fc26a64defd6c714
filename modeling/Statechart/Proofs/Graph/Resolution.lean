import Statechart.Graph.Build
import Statechart.Proofs.Dotted
import Statechart.Proofs.Graph.Ids

/-!
# What targets denote

A target denotes a place by the path that leads there or by the name the place is registered
under; no number is walked through. Main statements: looking a target up gives the place it
denotes, and a target denotes one place.
-/

namespace Statechart

/-! ## 1. The meaning of a target -/

namespace Layout

/-- The path that a bare target written on a place is read from: its parent's, or else the root's
own. -/
def basePath (l : Layout) (p : Place) : List String :=
  match p.parent.bind fun i => l.places[i]? with
  | some q => q.path
  | none => p.path

/-- **The target, written on the place `i`, denotes the place `j`.** -/
inductive Denotes (l : Layout) (rootKey : String) (i : Nat) : String → Nat → Prop
  /-- A bare target is a path below the parent. -/
  | bare {target : String} {p q : Place} {j : Nat} (hbare : Dotted.Bare target)
      (hp : l.places[i]? = some p) (hq : l.places[j]? = some q)
      (hpath : q.path = l.basePath p ++ Dotted.segments target) : Denotes l rootKey i target j
  /-- After a dot stands a path below the place itself. -/
  | inner {relative : String} {p q : Place} {j : Nat}
      (hp : l.places[i]? = some p) (hq : l.places[j]? = some q)
      (hpath : q.path = p.path ++ Dotted.segments relative) : Denotes l rootKey i ("." ++ relative) j
  /-- After `#` stands the name of a place, -/
  | byName {r : String} {j : Nat} (hj : l.Registered rootKey r j) : Denotes l rootKey i ("#" ++ r) j
  /-- or, where the whole is no name, one and a path below its place. -/
  | belowName {r head : String} {keys : List String} {h j : Nat} {p q : Place}
      (hnone : ∀ k, ¬ l.Registered rootKey r k) (hr : Dotted.segments r = head :: keys)
      (hh : l.Registered rootKey head h) (hp : l.places[h]? = some p)
      (hq : l.places[j]? = some q) (hpath : q.path = p.path ++ keys) :
      Denotes l rootKey i ("#" ++ r) j

/-! ## 2. Looking up, by the start of the target -/

variable (l : Layout) (i : Nat)

theorem resolve?_hash (r : String) :
    l.resolve? i ("#" ++ r) = (l.byId? r).or
      (match Dotted.segments r with
       | [] => none
       | head :: keys => (l.byId? head).bind fun h => l.descend? h keys) := by
  have h : Dotted.uncons? ("#" ++ r) = some ('#', r) :=
    Dotted.uncons?_eq_some.2 (Dotted.toList_hash r)
  rw [resolve?, h]
  rfl

theorem resolve?_dot (relative : String) :
    l.resolve? i ("." ++ relative) = l.descend? i (Dotted.segments relative) := by
  have h : Dotted.uncons? ("." ++ relative) = some ('.', relative) :=
    Dotted.uncons?_eq_some.2 (Dotted.toList_dot relative)
  rw [resolve?, h]
  rfl

theorem resolve?_bare {target : String} (h : Dotted.Bare target) :
    l.resolve? i target = l.descend? (((l.places[i]?).bind Place.parent).getD i)
      (Dotted.segments target) := by
  unfold resolve?
  split
  · next r hr => exact absurd (by rw [Dotted.uncons?_eq_some.1 hr, List.head?_cons]) h.1
  · next r hr => exact absurd (by rw [Dotted.uncons?_eq_some.1 hr, List.head?_cons]) h.2
  · rfl

end Layout

namespace StateTree

variable {t : StateTree} {l : Layout} (hl : t.layout? = .ok l)
include hl

/-! ## 3. Paths of places -/

/-- **Following keys from a place leads to the place whose path has them at its end.** -/
theorem path_of_descend? {i j : Nat} {p : Place} (hp : l.places[i]? = some p) {keys : List String}
    (hj : l.descend? i keys = some j) :
    ∃ q, l.places[j]? = some q ∧ q.path = p.path ++ keys := by
  have hpl := places_of_layout? hl
  obtain ⟨path, parent, s, h, rfl⟩ := located_of_place hpl hp
  obtain ⟨-, parent', s', -, hs'⟩ := h.of_descend? hpl hj
  exact ⟨_, hs'.place hpl, rfl⟩

/-- A bare target is read from the place that `basePath` is the path of. -/
theorem exists_base {i : Nat} {p : Place} (hp : l.places[i]? = some p) :
    ∃ q, l.places[((l.places[i]?).bind Place.parent).getD i]? = some q ∧
      q.path = l.basePath p := by
  have hpl := places_of_layout? hl
  obtain ⟨path, parent, s, h, rfl⟩ := located_of_place hpl hp
  have hparent : (placeAt t.rootKey i path parent s).parent = parent := rfl
  rw [hp, Option.bind_some, hparent]
  cases parent with
  | none => exact ⟨_, hp, rfl⟩
  | some i₀ =>
    obtain ⟨-, path₀, key, parent₀, s₀, -, h₀, -⟩ := h.of_parent
    refine ⟨_, h₀.place hpl, ?_⟩
    rw [Layout.basePath, hparent, Option.bind_some, h₀.place hpl]
    rfl

/-- **Two places have two paths.** -/
theorem path_injective (hd : t.KeysDistinct) {i j : Nat} {p q : Place}
    (hp : l.places[i]? = some p) (hq : l.places[j]? = some q) (h : p.path = q.path) : i = j := by
  have hpl := places_of_layout? hl
  obtain ⟨path, parent, s, hs, rfl⟩ := located_of_place hpl hp
  obtain ⟨path', parent', s', hs', rfl⟩ := located_of_place hpl hq
  obtain rfl : path = path' := h
  exact (hs.number_unique hd.everywhere hs').1

/-- Where a path goes on from one place to another and no key between is empty, following these
keys leads from the one to the other. -/
theorem descend?_of_path (hd : t.KeysDistinct) {i j : Nat} {p q : Place}
    (hp : l.places[i]? = some p) (hq : l.places[j]? = some q) {keys : List String}
    (hkeys : "" ∉ keys) (hpath : q.path = p.path ++ keys) : l.descend? i keys = some j := by
  have hpl := places_of_layout? hl
  obtain ⟨path, parent, s, hs, rfl⟩ := located_of_place hpl hp
  obtain ⟨path', parent', s', hs', rfl⟩ := located_of_place hpl hq
  obtain rfl : path' = path ++ keys := hpath
  have hat := hs'.at?_eq hd.everywhere
  rw [at?_append, hs.at?_eq hd.everywhere, Option.bind_some] at hat
  obtain ⟨k, parent'', hk, hs''⟩ := hs.exists_descend? hpl hkeys hat
  rw [hk, (hs'.number_unique hd.everywhere hs'').1]

/-! ## 4. Looking up agrees with the meaning -/

/-- **A target denotes at most one place.** -/
theorem denotes_unique (hd : t.KeysDistinct) {i : Nat} {target : String} {j k : Nat}
    (hj : l.Denotes t.rootKey i target j) (hk : l.Denotes t.rootKey i target k) : j = k := by
  generalize htarget : target = target' at hk
  cases hj with
  | bare hbare hp hq hpath =>
    cases hk with
    | bare _ hp' hq' hpath' =>
      obtain rfl := Option.some.inj (hp.symm.trans hp')
      exact path_injective hl hd hq hq' (by rw [hpath, hpath', htarget])
    | inner => exact absurd (htarget ▸ hbare) (Dotted.not_bare_dot _)
    | byName => exact absurd (htarget ▸ hbare) (Dotted.not_bare_hash _)
    | belowName => exact absurd (htarget ▸ hbare) (Dotted.not_bare_hash _)
  | inner hp hq hpath =>
    cases hk with
    | bare hbare => exact absurd (htarget ▸ hbare) (Dotted.not_bare_dot _)
    | inner hp' hq' hpath' =>
      obtain rfl := Option.some.inj (hp.symm.trans hp')
      exact path_injective hl hd hq hq' (by rw [hpath, hpath', Dotted.dot_inj htarget])
    | byName => exact absurd htarget.symm (Dotted.hash_ne_dot _ _)
    | belowName => exact absurd htarget.symm (Dotted.hash_ne_dot _ _)
  | byName hj =>
    cases hk with
    | bare hbare => exact absurd (htarget ▸ hbare) (Dotted.not_bare_hash _)
    | inner => exact absurd htarget (Dotted.hash_ne_dot _ _)
    | byName hk =>
      obtain rfl := Dotted.hash_inj htarget
      exact hj.unique hk
    | belowName hnone =>
      obtain rfl := Dotted.hash_inj htarget
      exact absurd hj (hnone _)
  | belowName hnone hr hh hp hq hpath =>
    cases hk with
    | bare hbare => exact absurd (htarget ▸ hbare) (Dotted.not_bare_hash _)
    | inner => exact absurd htarget (Dotted.hash_ne_dot _ _)
    | byName hk =>
      obtain rfl := Dotted.hash_inj htarget
      exact absurd hk (hnone _)
    | belowName _ hr' hh' hp' hq' hpath' =>
      obtain rfl := Dotted.hash_inj htarget
      obtain ⟨rfl, rfl⟩ := List.cons.inj (hr.symm.trans hr')
      obtain rfl := hh.unique hh'
      obtain rfl := Option.some.inj (hp.symm.trans hp')
      exact path_injective hl hd hq hq' (by rw [hpath, hpath'])

/-- **Looking a target up gives a place that it denotes.** -/
theorem denotes_of_resolve? {i j : Nat} {p : Place} (hp : l.places[i]? = some p) {target : String}
    (h : l.resolve? i target = some j) : l.Denotes t.rootKey i target j := by
  rcases Dotted.hash_or_dot_or_bare target with ⟨r, rfl⟩ | ⟨relative, rfl⟩ | hbare
  · rw [Layout.resolve?_hash] at h
    cases hr : l.byId? r with
    | some k =>
      rw [hr, Option.some_or] at h
      obtain rfl := Option.some.inj h
      exact .byName ((byId?_eq_some_iff hl).1 hr)
    | none =>
      rw [hr, Option.none_or] at h
      have hnone := (byId?_eq_none_iff hl).1 hr
      cases hs : Dotted.segments r with
      | nil => exact absurd hs (Dotted.segments_ne_nil r)
      | cons head keys =>
        rw [hs] at h
        obtain ⟨m, hm, hj⟩ := Option.bind_eq_some_iff.1 h
        have hreg := (byId?_eq_some_iff hl).1 hm
        obtain ⟨q, hq, -⟩ := hreg.1
        obtain ⟨q', hq', hpath⟩ := path_of_descend? hl hq hj
        exact .belowName hnone hs hreg hq hq' hpath
  · rw [Layout.resolve?_dot] at h
    obtain ⟨q, hq, hpath⟩ := path_of_descend? hl hp h
    exact .inner hp hq hpath
  · rw [Layout.resolve?_bare l i hbare] at h
    obtain ⟨b, hb, hbase⟩ := exists_base hl hp
    obtain ⟨q, hq, hpath⟩ := path_of_descend? hl hb h
    exact .bare hbare hp hq (by rw [hpath, hbase])

/-- **What a target is looked up to is the only place it denotes.** -/
theorem denotes_iff_of_resolve? (hd : t.KeysDistinct) {i j : Nat} {p : Place}
    (hp : l.places[i]? = some p) {target : String} (h : l.resolve? i target = some j) (k : Nat) :
    l.Denotes t.rootKey i target k ↔ k = j := by
  have hj := denotes_of_resolve? hl hp h
  constructor
  · intro hk
    exact denotes_unique hl hd hk hj
  · rintro rfl
    exact hj

/-- **Where no key is empty, the place that a target denotes is found.** -/
theorem resolve?_of_denotes (hd : t.KeysDistinct)
    (hkeys : ∀ {j : Nat} {q : Place}, l.places[j]? = some q → "" ∉ q.path) {i j : Nat}
    {target : String} (h : l.Denotes t.rootKey i target j) : l.resolve? i target = some j := by
  have hrest : ∀ {j : Nat} {q : Place} {path keys : List String}, l.places[j]? = some q →
      q.path = path ++ keys → "" ∉ keys := by
    intro j q path keys hq hpath hmem
    exact hkeys hq (by rw [hpath]; exact List.mem_append_right path hmem)
  cases h with
  | bare hbare hp hq hpath =>
    obtain ⟨b, hb, hbase⟩ := exists_base hl hp
    rw [Layout.resolve?_bare l i hbare]
    exact descend?_of_path hl hd hb hq (hrest hq hpath) (by rw [hpath, hbase])
  | inner hp hq hpath =>
    rw [Layout.resolve?_dot]
    exact descend?_of_path hl hd hp hq (hrest hq hpath) hpath
  | byName hj =>
    rw [Layout.resolve?_hash, (byId?_eq_some_iff hl).2 hj, Option.some_or]
  | @belowName r head keys h _ p q hnone hr hh hp hq hpath =>
    rw [Layout.resolve?_hash, (byId?_eq_none_iff hl).2 hnone, Option.none_or, hr]
    show (l.byId? head).bind _ = _
    rw [(byId?_eq_some_iff hl).2 hh, Option.bind_some]
    exact descend?_of_path hl hd hp hq (hrest hq hpath) hpath

end StateTree

end Statechart
