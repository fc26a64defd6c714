import Statechart.Proofs.Graph.Places
import Statechart.Proofs.Outcome

/-!
# Ids and the places they stand for

Every state is called by its id and by the id its path spells. Of several states that are called
by one name the first in definition order is known under it; where the layout exists at all, an id
that is some state's own is known as that state's and as no other's.
-/

namespace Statechart

/-! ## 1. What a place is called -/

/-- `r` is the id of the place, or the one its path spells. -/
def Place.Called (rootKey r : String) (p : Place) : Prop :=
  p.id = r ∨ StateTree.derivedId rootKey p.path = r

instance (rootKey r : String) (p : Place) : Decidable (p.Called rootKey r) :=
  inferInstanceAs (Decidable (_ ∨ _))

/-- **The place `i` is registered under `r`**: it is called `r`, and no earlier place is. -/
def Layout.Registered (l : Layout) (rootKey r : String) (i : Nat) : Prop :=
  (∃ p, l.places[i]? = some p ∧ p.Called rootKey r) ∧
    ∀ k < i, ∀ p, l.places[k]? = some p → ¬ p.Called rootKey r

/-- Under one name one place is registered. -/
theorem Layout.Registered.unique {l : Layout} {rootKey r : String} {i j : Nat}
    (hi : l.Registered rootKey r i) (hj : l.Registered rootKey r j) : i = j := by
  obtain ⟨⟨p, hp, hpr⟩, hbefore⟩ := hi
  obtain ⟨⟨q, hq, hqr⟩, hbefore'⟩ := hj
  rcases Nat.lt_trichotomy i j with h | h | h
  · exact absurd hpr (hbefore' i h p hp)
  · exact h
  · exact absurd hqr (hbefore j h q hq)

namespace StateTree

variable {rootKey r : String} {i : Nat} {path : List String} {ids ids' : Assoc Nat}

/-! ## 2. Registering one state -/

/-- **What registering one state adds**: both its names, where they stand for nothing yet. Its id
stood for nothing before. -/
theorem registerAt_spec {t : StateTree} (h : registerAt rootKey i path t ids = .ok ids') :
    ids.lookup (t.idAt rootKey path) = none ∧
      ∀ r, ids'.lookup r = (ids.lookup r).or
        (if t.idAt rootKey path = r ∨ derivedId rootKey path = r then some i else none) := by
  simp only [registerAt] at h
  split at h
  · cases h
  · next hnew =>
    have hid : ids.lookup (t.idAt rootKey path) = none :=
      Option.not_isSome_iff_eq_none.1 hnew
    refine ⟨hid, fun r => ?_⟩
    have hput : ∀ r, (Assoc.put (t.idAt rootKey path) i ids).lookup r =
        (ids.lookup r).or (if t.idAt rootKey path = r then some i else none) := by
      intro r
      by_cases hr : t.idAt rootKey path = r
      · subst hr
        rw [Assoc.lookup_put_self, hid, if_pos rfl]
        rfl
      · rw [Assoc.lookup_put_ne (fun e => hr e.symm), if_neg hr, Option.or_none]
    split at h
    · next hder =>
      -- the derived id stands for something already, which it keeps
      obtain rfl := Except.ok.inj h
      rw [hput]
      by_cases hr : derivedId rootKey path = r
      · subst hr
        rw [hput] at hder
        cases hl : ids.lookup (derivedId rootKey path) with
        | some j => rfl
        | none =>
          rw [hl] at hder
          split at hder
          · next he => simp [he]
          · cases hder
      · simp [hr]
    · next hder =>
      obtain rfl := Except.ok.inj h
      by_cases hr : derivedId rootKey path = r
      · subst hr
        rw [Assoc.lookup_put_self]
        rw [hput] at hder
        have hnone : ids.lookup (derivedId rootKey path) = none := by
          cases hl : ids.lookup (derivedId rootKey path) with
          | some j => simp [hl] at hder
          | none => rfl
        simp [hnone]
      · rw [Assoc.lookup_put_ne (fun e => hr e.symm), hput]
        simp [hr]

/-! ## 3. Registering a tree -/

mutual

/-- **Registering a tree keeps what stands in the ids, and adds for every other name the first
state that is called by it.** -/
theorem lookup_register : {t : StateTree} → {i : Nat} → {path : List String} →
    {ids ids' : Assoc Nat} → (parent : Option Nat) →
    register rootKey i path ids t = .ok ids' → ∀ r, ids'.lookup r = (ids.lookup r).or
      (((placesFrom rootKey i path parent t).findIdx? fun q => q.1.Called rootKey r).map (· + i))
  | state d cs, i, path, ids, ids', parent, h, r => by
    obtain ⟨-, -, h⟩ := Outcome.bind_eq_ok.1 h
    obtain ⟨ids₁, h₁, h⟩ := Outcome.bind_eq_ok.1 h
    obtain ⟨ids₂, h₂, h⟩ := Outcome.bind_eq_ok.1 h
    obtain ⟨-, -, h⟩ := Outcome.bind_eq_ok.1 h
    obtain rfl := Except.ok.inj h
    rw [lookup_registerAll i h₂ r, (registerAt_spec h₁).2 r, placesFrom, List.findIdx?_cons]
    by_cases hr : (state d cs).idAt rootKey path = r ∨ derivedId rootKey path = r
    · have hc : (placeAt rootKey i path parent (state d cs)).Called rootKey r := hr
      simp [hr, hc]
    · have hc : ¬ (placeAt rootKey i path parent (state d cs)).Called rootKey r := hr
      simp only [if_neg hr, Option.or_none, hc, decide_false, Bool.false_eq_true, if_false,
        Option.map_map]
      congr 2
      funext k
      show k + (i + 1) = k + 1 + i
      omega

theorem lookup_registerAll : {cs : List (String × StateTree)} → {next : Nat} →
    {path : List String} → {ids ids' : Assoc Nat} → (parent : Nat) →
    registerAll rootKey next path ids cs = .ok ids' → ∀ r, ids'.lookup r = (ids.lookup r).or
      (((placesOfAll rootKey next path parent cs).findIdx? fun q =>
        q.1.Called rootKey r).map (· + next))
  | [], next, path, ids, ids', parent, h, r => by
    obtain rfl := Except.ok.inj h
    simp [placesOfAll]
  | (key, c) :: rest, next, path, ids, ids', parent, h, r => by
    obtain ⟨ids₁, h₁, h₂⟩ := Outcome.bind_eq_ok.1 h
    rw [lookup_registerAll parent h₂ r, lookup_register (some parent) h₁ r, placesOfAll,
      List.findIdx?_append, length_placesFrom, Option.or_assoc, Option.map_or, Option.map_map]
    congr 3
    funext k
    show k + (next + c.size) = k + c.size + next
    omega

end

/-- What stands in the ids stays there. -/
theorem lookup_of_registerAll {cs : List (String × StateTree)}
    (h : registerAll rootKey i path ids cs = .ok ids') {j : Nat} (hj : ids.lookup r = some j) :
    ids'.lookup r = some j := by
  rw [lookup_registerAll 0 h r, hj]
  rfl

mutual

/-- **Every state is known under its own id.** -/
theorem lookup_own_register : {t : StateTree} → {i : Nat} → {path : List String} →
    {ids ids' : Assoc Nat} → (parent : Option Nat) → register rootKey i path ids t = .ok ids' →
    ∀ k q, (placesFrom rootKey i path parent t)[k]? = some q →
      ids'.lookup q.1.id = some (k + i)
  | state d cs, i, path, ids, ids', parent, h, k, q, hq => by
    obtain ⟨-, -, h⟩ := Outcome.bind_eq_ok.1 h
    obtain ⟨ids₁, h₁, h⟩ := Outcome.bind_eq_ok.1 h
    obtain ⟨ids₂, h₂, h⟩ := Outcome.bind_eq_ok.1 h
    obtain ⟨-, -, h⟩ := Outcome.bind_eq_ok.1 h
    obtain rfl := Except.ok.inj h
    rw [placesFrom] at hq
    cases k with
    | zero =>
      obtain rfl := Option.some.inj hq
      obtain ⟨hnew, hadd⟩ := registerAt_spec h₁
      have hown := hadd ((state d cs).idAt rootKey path)
      rw [hnew, if_pos (Or.inl rfl)] at hown
      rw [Nat.zero_add]
      exact lookup_of_registerAll h₂ hown
    | succ k =>
      rw [List.getElem?_cons_succ] at hq
      rw [Nat.add_right_comm]
      exact lookup_own_registerAll i h₂ k q hq

theorem lookup_own_registerAll : {cs : List (String × StateTree)} → {next : Nat} →
    {path : List String} → {ids ids' : Assoc Nat} → (parent : Nat) →
    registerAll rootKey next path ids cs = .ok ids' →
    ∀ k q, (placesOfAll rootKey next path parent cs)[k]? = some q →
      ids'.lookup q.1.id = some (k + next)
  | [], _, _, _, _, _, _, k, q, hq => by cases hq
  | (key, c) :: rest, next, path, ids, ids', parent, h, k, q, hq => by
    obtain ⟨ids₁, h₁, h₂⟩ := Outcome.bind_eq_ok.1 h
    rw [placesOfAll] at hq
    by_cases hk : k < c.size
    · rw [List.getElem?_append_left (by rwa [length_placesFrom])] at hq
      exact lookup_of_registerAll h₂ (lookup_own_register (some parent) h₁ k q hq)
    · rw [List.getElem?_append_right (by rw [length_placesFrom]; omega), length_placesFrom] at hq
      rw [show k + next = k - c.size + (next + c.size) by omega]
      exact lookup_own_registerAll parent h₂ _ q hq

end

/-! ## 4. The ids of a layout -/

section Layout

variable {t : StateTree} {l : Layout} (hl : t.layout? = .ok l)
include hl

theorem places_of_layout? : l.places = t.placesWithDecls.map Prod.fst := by
  obtain ⟨ids, -, h⟩ := Outcome.bind_eq_ok.1 hl
  obtain rfl := Except.ok.inj h
  rfl

theorem register_of_layout? : register t.rootKey 0 [] [] t = .ok l.ids := by
  obtain ⟨ids, hids, h⟩ := Outcome.bind_eq_ok.1 hl
  obtain rfl := Except.ok.inj h
  exact hids

/-- **An id leads to the place that is registered under it.** -/
theorem byId?_eq_some_iff {r : String} {j : Nat} :
    l.byId? r = some j ↔ l.Registered t.rootKey r j := by
  have hfirst : l.byId? r = l.places.findIdx? fun p => p.Called t.rootKey r := by
    rw [places_of_layout? hl, List.findIdx?_map, Layout.byId?,
      lookup_register none (register_of_layout? hl) r]
    simp only [List.lookup_nil, Option.none_or, Nat.add_zero, Option.map_id_fun', id_eq]
    rfl
  rw [hfirst, List.findIdx?_eq_some_iff_getElem]
  constructor
  · rintro ⟨hj, hcalled, hbefore⟩
    refine ⟨⟨l.places[j], List.getElem?_eq_getElem hj, of_decide_eq_true hcalled⟩, ?_⟩
    intro k hk p hp
    obtain ⟨hk', rfl⟩ := List.getElem?_eq_some_iff.1 hp
    simpa using hbefore k hk
  · rintro ⟨⟨p, hp, hcalled⟩, hbefore⟩
    obtain ⟨hj, rfl⟩ := List.getElem?_eq_some_iff.1 hp
    refine ⟨hj, decide_eq_true hcalled, fun k hk => ?_⟩
    have := hbefore k hk _ (List.getElem?_eq_getElem (Nat.lt_trans hk hj))
    simpa using this

/-- An id leads nowhere where no place is registered under it. -/
theorem byId?_eq_none_iff {r : String} :
    l.byId? r = none ↔ ∀ j, ¬ l.Registered t.rootKey r j := by
  rw [Option.eq_none_iff_forall_ne_some]
  constructor
  · intro h j hj
    exact h j ((byId?_eq_some_iff hl).2 hj)
  · intro h j hj
    exact h j ((byId?_eq_some_iff hl).1 hj)

/-- **Every state is registered under its own id.** -/
theorem byId?_own {i : Nat} {p : Place} (hp : l.places[i]? = some p) : l.byId? p.id = some i := by
  rw [places_of_layout? hl, List.getElem?_map] at hp
  obtain ⟨q, hq, rfl⟩ := Option.map_eq_some_iff.1 hp
  exact lookup_own_register none (register_of_layout? hl) i q hq

/-- **Two states have two ids.** -/
theorem id_injective {i j : Nat} {p q : Place} (hp : l.places[i]? = some p)
    (hq : l.places[j]? = some q) (h : p.id = q.id) : i = j := by
  have hi := byId?_own hl hp
  rw [h, byId?_own hl hq] at hi
  exact (Option.some.inj hi).symm

end Layout

end StateTree

end Statechart
