/-!
# Keyed lists

A keyed list holds a value for each of its keys, in the order in which the keys first came.
Writing under a key that is there replaces the value and keeps the place; a new key goes to the
end. Looking up is `List.lookup`.
-/

namespace Statechart

/-- A list of values with distinct text keys; the order of the keys is part of the value. -/
abbrev Assoc (α : Type) := List (String × α)

namespace Assoc

variable {α β : Type}

/-! ## 1. Keys and writing -/

/-- The keys in order. -/
def keys (m : Assoc α) : List String := m.map Prod.fst

@[simp] theorem keys_nil : keys ([] : Assoc α) = [] := rfl

@[simp] theorem keys_cons (k : String) (v : α) (m : Assoc α) :
    keys ((k, v) :: m) = k :: keys m := rfl

/-- Every key stands once. -/
def Distinct (m : Assoc α) : Prop := m.keys.Nodup

instance (m : Assoc α) : Decidable (Distinct m) := inferInstanceAs (Decidable m.keys.Nodup)

/-- Writes `v` under `k`: in place where the key is there, at the end where it is not. -/
def put (k : String) (v : α) : Assoc α → Assoc α
  | [] => [(k, v)]
  | (k', v') :: rest => if k' = k then (k, v) :: rest else (k', v') :: put k v rest

/-- Changes the value under `k`, starting from `new` where the key is not there. -/
def adjust (k : String) (new : α) (f : α → α) : Assoc α → Assoc α
  | [] => [(k, f new)]
  | (k', v') :: rest => if k' = k then (k', f v') :: rest else (k', v') :: adjust k new f rest

/-- The keyed list of some pairs written one after the other. -/
def ofList (pairs : List (String × α)) : Assoc α :=
  pairs.foldl (fun m (k, v) => put k v m) []

/-! ## 2. What writing does to keys and look-ups -/

theorem keys_put (k : String) (v : α) (m : Assoc α) :
    keys (put k v m) = if k ∈ keys m then keys m else keys m ++ [k] := by
  induction m with
  | nil => simp [put]
  | cons entry rest ih =>
    obtain ⟨k', v'⟩ := entry
    by_cases h : k' = k
    · simp [put, h]
    · have h' : k ≠ k' := fun e => h e.symm
      simp only [put, h, if_false, keys_cons, ih, List.mem_cons, h', false_or]
      split <;> simp

/-- A new key goes to the end. -/
theorem put_of_not_mem {k : String} {m : Assoc α} (h : k ∉ keys m) (v : α) :
    put k v m = m ++ [(k, v)] := by
  induction m with
  | nil => rfl
  | cons entry rest ih =>
    obtain ⟨k', v'⟩ := entry
    obtain ⟨hne, hrest⟩ := List.ne_and_not_mem_of_not_mem_cons h
    rw [put, if_neg hne.symm, ih hrest, List.cons_append]

theorem lookup_put_self (k : String) (v : α) (m : Assoc α) : (put k v m).lookup k = some v := by
  induction m with
  | nil => simp [put]
  | cons entry rest ih =>
    obtain ⟨k', v'⟩ := entry
    by_cases h : k' = k
    · simp [put, h]
    · have h' : (k == k') = false := by simpa using fun e => h e.symm
      simp [put, h, List.lookup_cons, h', ih]

theorem lookup_put_ne {k k' : String} (h : k' ≠ k) (v : α) (m : Assoc α) :
    (put k v m).lookup k' = m.lookup k' := by
  have hb : (k' == k) = false := by simpa using h
  induction m with
  | nil => simp [put, h]
  | cons entry rest ih =>
    obtain ⟨l, w⟩ := entry
    by_cases hl : l = k
    · subst hl
      simp [put, List.lookup_cons, hb]
    · simp only [put, hl, if_false, List.lookup_cons, ih]

theorem Distinct.put {m : Assoc α} (h : Distinct m) (k : String) (v : α) :
    Distinct (Assoc.put k v m) := by
  unfold Distinct at *
  rw [keys_put]
  split
  · exact h
  · next hk => exact List.nodup_append.2 ⟨h, by simp, by grind⟩

theorem distinct_ofList (pairs : List (String × α)) : Distinct (ofList pairs) := by
  have step : ∀ (ps : List (String × α)) (m : Assoc α), Distinct m →
      Distinct (ps.foldl (fun m (k, v) => Assoc.put k v m) m) := by
    intro ps
    induction ps with
    | nil => intro m h; exact h
    | cons p ps ih => intro m h; exact ih _ (h.put p.1 p.2)
  exact step pairs [] (by simp [Distinct])

/-! ## 3. Entries and look-ups -/

theorem mem_of_lookup {k : String} {v : α} {m : Assoc α} (h : m.lookup k = some v) :
    (k, v) ∈ m := by
  obtain ⟨before, rest, hm, -⟩ := List.lookup_eq_some_iff.1 h
  rw [hm]
  simp

theorem exists_lookup_of_mem {k : String} {v : α} {m : Assoc α} (h : (k, v) ∈ m) :
    ∃ v', m.lookup k = some v' := by
  cases hl : m.lookup k with
  | none => simpa using List.lookup_eq_none_iff.1 hl (k, v) h
  | some v' => exact ⟨v', rfl⟩

/-- What is found under a key stands between entries of other keys before it and the rest. -/
theorem lookup_eq_some_iff {k : String} {v : α} {m : Assoc α} :
    m.lookup k = some v ↔ ∃ before rest, m = before ++ (k, v) :: rest ∧ k ∉ keys before := by
  have hk : ∀ before : Assoc α, (∀ p ∈ before, (k != p.1) = true) ↔ k ∉ keys before := by
    intro before
    simp only [keys, List.mem_map, bne_iff_ne, not_exists, not_and]
    exact ⟨fun h p hp e => h p hp e.symm, fun h p hp e => h p hp e.symm⟩
  simp only [List.lookup_eq_some_iff, hk]

theorem Distinct.lookup_of_mem {m : Assoc α} (hm : Distinct m) {k : String} {v : α}
    (h : (k, v) ∈ m) : m.lookup k = some v := by
  obtain ⟨before, rest, rfl⟩ := List.append_of_mem h
  refine lookup_eq_some_iff.2 ⟨before, rest, rfl, fun hk => ?_⟩
  unfold Distinct keys at hm
  rw [List.map_append, List.nodup_append] at hm
  exact hm.2.2 k hk k List.mem_cons_self rfl

/-- A key of a list with distinct keys cuts it in one way only. -/
theorem Distinct.split_unique {k : String} {v v' : α} {before rest before' rest' : Assoc α}
    (hm : Distinct (before ++ (k, v) :: rest))
    (h : before ++ (k, v) :: rest = before' ++ (k, v') :: rest') :
    before = before' ∧ v = v' ∧ rest = rest' := by
  induction before generalizing before' with
  | nil =>
    cases before' with
    | nil => simpa using h
    | cons e before' =>
      obtain ⟨rfl, hrest⟩ : (k, v) = e ∧ rest = before' ++ (k, v') :: rest' := by simpa using h
      simp [Distinct, hrest, keys] at hm
  | cons e before ih =>
    cases before' with
    | nil =>
      obtain ⟨rfl, hrest⟩ : e = (k, v') ∧ before ++ (k, v) :: rest = rest' := by simpa using h
      simp [Distinct, keys] at hm
    | cons e' before' =>
      obtain ⟨rfl, hrest⟩ : e = e' ∧ before ++ (k, v) :: rest = before' ++ (k, v') :: rest' := by
        simpa using h
      have hm' : Distinct (before ++ (k, v) :: rest) := (List.nodup_cons.1 hm).2
      obtain ⟨rfl, hv, hr⟩ := ih hm' hrest
      exact ⟨rfl, hv, hr⟩

end Assoc

end Statechart
