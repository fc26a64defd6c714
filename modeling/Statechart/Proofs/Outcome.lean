import Mathlib.Data.List.Forall2

/-!
# Outcomes that are results

What a result says about the steps that led to it: a chain of steps has a result exactly when each
step has one, and a list that is worked through item by item gives one result for each item.
-/

namespace Statechart.Outcome

variable {ε α β : Type}

/-! ## 1. One step after the other -/

theorem ok_bind (a : α) (f : α → Except ε β) : (.ok a : Except ε α) >>= f = f a := rfl

theorem bind_eq_ok {x : Except ε α} {f : α → Except ε β} {b : β} :
    x >>= f = .ok b ↔ ∃ a, x = .ok a ∧ f a = .ok b := by
  cases x with
  | ok a =>
    constructor
    · intro h
      exact ⟨a, rfl, h⟩
    · rintro ⟨_, ha, h⟩
      cases ha
      exact h
  | error e =>
    constructor
    · intro h
      cases h
    · rintro ⟨_, ha, _⟩
      cases ha

theorem map_eq_ok {x : Except ε α} {f : α → β} {b : β} :
    x.map f = .ok b ↔ ∃ a, x = .ok a ∧ f a = b := by
  cases x with
  | ok a =>
    constructor
    · intro h
      exact ⟨a, rfl, Except.ok.inj h⟩
    · intro h
      obtain ⟨a', ha, rfl⟩ := h
      rw [Except.ok.inj ha]
      rfl
  | error e =>
    constructor
    · intro h
      cases h
    · intro h
      obtain ⟨a, ha, -⟩ := h
      cases ha

/-- A test that passes of a result says that there is one. -/
theorem exists_eq_ok {x : Except ε α} {p : α → Bool} (h : x.toOption.any p = true) :
    ∃ a, x = .ok a ∧ p a = true := by
  cases x with
  | ok a => exact ⟨a, rfl, h⟩
  | error e => cases h

theorem toOption_eq_some_iff {x : Except ε α} {a : α} : x.toOption = some a ↔ x = .ok a := by
  cases x <;> simp [Except.toOption]

theorem mapError_eq_ok {ε' : Type} {f : ε → ε'} {x : Except ε α} {a : α} :
    x.mapError f = .ok a ↔ x = .ok a := by
  cases x with
  | ok a' =>
    constructor
    · intro h
      rw [Except.ok.inj h]
    · intro h
      rw [Except.ok.inj h]
      rfl
  | error e =>
    constructor
    · intro h
      cases h
    · intro h
      cases h

/-! ## 2. Item by item -/

/-- **Every item has its result, in order, and nothing else is there.** -/
theorem mapM_eq_ok {f : α → Except ε β} {as : List α} {bs : List β} :
    as.mapM f = .ok bs ↔ List.Forall₂ (fun a b => f a = .ok b) as bs := by
  induction as generalizing bs with
  | nil =>
    rw [List.mapM_nil, List.forall₂_nil_left_iff]
    exact ⟨fun h => (Except.ok.inj h).symm, fun h => by rw [h]; rfl⟩
  | cons a as ih =>
    rw [List.mapM_cons, bind_eq_ok, List.forall₂_cons_left_iff]
    constructor
    · rintro ⟨b, hb, h⟩
      obtain ⟨rest, hrest, h⟩ := bind_eq_ok.mp h
      exact ⟨b, rest, hb, ih.mp hrest, (Except.ok.inj h).symm⟩
    · rintro ⟨b, rest, hb, hrest, rfl⟩
      exact ⟨b, hb, bind_eq_ok.mpr ⟨rest, ih.mpr hrest, rfl⟩⟩

/-- The result of a list is made up of the results of its items. -/
theorem filterMap_of_mapM_eq_ok {f : α → Except ε β} {as : List α} {bs : List β}
    (h : as.mapM f = .ok bs) : as.filterMap (fun a => (f a).toOption) = bs := by
  have hitems := mapM_eq_ok.1 h
  clear h
  induction hitems with
  | nil => rfl
  | cons hab _ ih =>
    rw [List.filterMap_cons, hab, ih]
    rfl

/-- What is related item by item is related at each position. -/
theorem getElem?_of_forall₂ {R : α → β → Prop} {as : List α} {bs : List β}
    (h : List.Forall₂ R as bs) {i : Nat} {a : α} (ha : as[i]? = some a) :
    ∃ b, bs[i]? = some b ∧ R a b := by
  obtain ⟨hi, rfl⟩ := List.getElem?_eq_some_iff.1 ha
  have hi' : i < bs.length := by rwa [← h.length_eq]
  exact ⟨bs[i], List.getElem?_eq_getElem hi', h.get hi hi'⟩

/-- What stands on the right of a relation item by item is related to something on the left. -/
theorem exists_left_of_mem {R : α → β → Prop} {as : List α} {bs : List β}
    (h : List.Forall₂ R as bs) {b : β} (hb : b ∈ bs) : ∃ a ∈ as, R a b := by
  induction h with
  | nil => cases hb
  | cons hab hrest ih =>
    rcases List.mem_cons.1 hb with rfl | hb
    · exact ⟨_, List.mem_cons_self, hab⟩
    · obtain ⟨a, ha, hR⟩ := ih hb
      exact ⟨a, List.mem_cons_of_mem _ ha, hR⟩

/-- What is related item by item through a list in between is related item by item. -/
theorem forall₂_trans {γ : Type} {R : α → β → Prop} {S : β → γ → Prop} {T : α → γ → Prop}
    (hT : ∀ a b c, R a b → S b c → T a c) {as : List α} {bs : List β} {cs : List γ}
    (h : List.Forall₂ R as bs) (h' : List.Forall₂ S bs cs) : List.Forall₂ T as cs := by
  induction h generalizing cs with
  | nil =>
    cases h'
    exact .nil
  | cons hab hrest ih =>
    cases h' with
    | cons hbc hrest' => exact .cons (hT _ _ _ hab hbc) (ih hrest')

/-- An item of a list that is worked through has its result. -/
theorem exists_of_mem_of_mapM_eq_ok {f : α → Except ε β} {as : List α} {bs : List β}
    (h : as.mapM f = .ok bs) {a : α} (ha : a ∈ as) : ∃ b, f a = .ok b := by
  obtain ⟨i, hi⟩ := List.mem_iff_getElem?.1 ha
  obtain ⟨b, -, hb⟩ := getElem?_of_forall₂ (mapM_eq_ok.1 h) hi
  exact ⟨b, hb⟩

/-! ## 3. That there is a result -/

theorem exists_bind {x : Except ε α} {f : α → Except ε β} (hx : ∃ a, x = .ok a)
    (hf : ∀ a, ∃ b, f a = .ok b) : ∃ b, x >>= f = .ok b := by
  obtain ⟨a, rfl⟩ := hx
  exact hf a

theorem exists_map {x : Except ε α} (f : α → β) (hx : ∃ a, x = .ok a) : ∃ b, x.map f = .ok b := by
  obtain ⟨a, rfl⟩ := hx
  exact ⟨f a, rfl⟩

theorem exists_mapM {f : α → Except ε β} {as : List α} (h : ∀ a ∈ as, ∃ b, f a = .ok b) :
    ∃ bs, as.mapM f = .ok bs := by
  induction as with
  | nil => exact ⟨[], rfl⟩
  | cons a as ih =>
    rw [List.mapM_cons]
    refine exists_bind (h a List.mem_cons_self) fun b => ?_
    exact exists_bind (ih fun a' ha' => h a' (List.mem_cons_of_mem a ha')) fun bs => ⟨_, rfl⟩

theorem exists_foldlM {f : β → α → Except ε β} {as : List α}
    (h : ∀ a ∈ as, ∀ b, ∃ b', f b a = .ok b') (b : β) : ∃ b', as.foldlM f b = .ok b' := by
  induction as generalizing b with
  | nil => exact ⟨b, rfl⟩
  | cons a as ih =>
    rw [List.foldlM_cons]
    refine exists_bind (h a List.mem_cons_self b) fun b' => ?_
    exact ih (fun a' ha' => h a' (List.mem_cons_of_mem a ha')) b'

/-! ## 4. That there is none -/

/-- A chain of steps has no result where its first step has none, or a later one. -/
theorem bind_eq_error {x : Except ε α} {f : α → Except ε β} {e : ε} :
    x >>= f = .error e ↔ x = .error e ∨ ∃ a, x = .ok a ∧ f a = .error e := by
  cases x with
  | ok a =>
    constructor
    · intro h
      exact Or.inr ⟨a, rfl, h⟩
    · rintro (h | ⟨_, ha, h⟩)
      · cases h
      · cases ha
        exact h
  | error e' =>
    constructor
    · intro h
      exact Or.inl (by cases h; rfl)
    · rintro (h | ⟨_, ha, _⟩)
      · cases h
        rfl
      · cases ha

/-- A list has no result where some item has none. -/
theorem exists_of_mapM_eq_error {f : α → Except ε β} {as : List α} {e : ε}
    (h : as.mapM f = .error e) : ∃ a ∈ as, f a = .error e := by
  induction as with
  | nil => cases h
  | cons a as ih =>
    rw [List.mapM_cons] at h
    rcases bind_eq_error.1 h with h | ⟨b, -, h⟩
    · exact ⟨a, List.mem_cons_self, h⟩
    · rcases bind_eq_error.1 h with h | ⟨bs, -, h⟩
      · obtain ⟨a', ha', h'⟩ := ih h
        exact ⟨a', List.mem_cons_of_mem a ha', h'⟩
      · cases h

theorem bind_ne_error {x : Except ε α} {f : α → Except ε β} {e : ε} (hx : x ≠ .error e)
    (hf : ∀ a, f a ≠ .error e) : x >>= f ≠ .error e := by
  intro h
  rcases bind_eq_error.1 h with h | ⟨a, -, h⟩
  · exact hx h
  · exact hf a h

theorem mapM_ne_error {f : α → Except ε β} {as : List α} {e : ε} (h : ∀ a, f a ≠ .error e) :
    as.mapM f ≠ .error e := by
  intro has
  obtain ⟨a, -, ha⟩ := exists_of_mapM_eq_error has
  exact h a ha

/-- One item without a result is enough for the list to have none. -/
theorem exists_mapM_eq_error {f : α → Except ε β} {as : List α} {a : α} {e : ε} (ha : a ∈ as)
    (h : f a = .error e) : ∃ e', as.mapM f = .error e' := by
  cases has : as.mapM f with
  | ok bs =>
    obtain ⟨b, hb⟩ := exists_of_mem_of_mapM_eq_ok has ha
    cases h.symm.trans hb
  | error e' => exact ⟨e', rfl⟩

/-- A list fails as the first of its items that does. -/
theorem mapM_of_first_error {f : α → Except ε β} {before after : List α} {a : α} {e : ε}
    (hbefore : ∀ a' ∈ before, ∃ b, f a' = .ok b) (h : f a = .error e) :
    (before ++ a :: after).mapM f = .error e := by
  obtain ⟨bs, hbs⟩ := exists_mapM hbefore
  rw [List.mapM_append, List.mapM_cons, hbs, h]
  rfl

theorem mapError_eq_error {ε' : Type} {f : ε → ε'} {x : Except ε α} {e : ε'} :
    x.mapError f = .error e ↔ ∃ e', x = .error e' ∧ f e' = e := by
  cases x with
  | ok a =>
    constructor
    · intro h
      cases h
    · rintro ⟨e', h, -⟩
      cases h
  | error e' =>
    constructor
    · intro h
      exact ⟨e', rfl, Except.error.inj h⟩
    · rintro ⟨_, h, rfl⟩
      cases h
      rfl

/-! ## 5. The error as a value -/

/-- The error, if there is no result. -/
def error? : Except ε α → Option ε
  | .ok _ => none
  | .error e => some e

theorem error?_eq_some_iff {x : Except ε α} {e : ε} : error? x = some e ↔ x = .error e := by
  cases x with
  | ok a => simp [error?]
  | error e' => simp [error?]

theorem error?_eq_none_iff {x : Except ε α} : error? x = none ↔ ∃ a, x = .ok a := by
  cases x with
  | ok a => simp [error?]
  | error e => simp [error?]

/-- A step whose error does not hang on the result before it fails after that one. -/
theorem error?_bind {x : Except ε α} {f : α → Except ε β} {o : Option ε}
    (h : ∀ a, error? (f a) = o) : error? (x >>= f) = (error? x).or o := by
  cases x with
  | ok a => exact h a
  | error e => rfl

/-- **A list fails with the first error of its items.** -/
theorem error?_mapM (f : α → Except ε β) (as : List α) :
    error? (as.mapM f) = as.findSome? fun a => error? (f a) := by
  induction as with
  | nil => rfl
  | cons a as ih =>
    have hrest (b : β) : error? ((as.mapM f) >>= fun bs => pure (b :: bs)) =
        as.findSome? fun a => error? (f a) := by
      rw [error?_bind (o := none) fun _ => rfl, Option.or_none, ih]
    rw [List.mapM_cons, error?_bind hrest, List.findSome?_cons]
    cases error? (f a) <;> rfl

end Statechart.Outcome
