import Statechart.Proofs.Fields
import Statechart.Proofs.Shape.Accepted
import Statechart.Proofs.Shape.Fits

/-!
# Accepted objects

What is kept of an object of known fields and of a record. Main statements: each field of an
accepted object has the value that its expression is read to, and an accepted record has all the
keys of the object, in order.
-/

namespace Statechart

/-- A reading that has not failed is that of a field that may be left out. -/
theorem Reading.eq_ofField {r : Reading} (h : r ≠ .failed) : r = .ofField r.value? := by
  cases r with
  | failed => exact absurd rfl h
  | absent => rfl
  | present v => rfl

theorem Reading.ne_failed_of_eq_ofField {r : Reading} {v : Option Value} (h : r = .ofField v) :
    r ≠ .failed := by
  rw [h]
  cases v <;> simp [ofField]

namespace Shape

variable {below : Reader} {cx : Context} {n : Nat} {o : Option Expression}

/-! ## 1. Fields -/

/-- Each field has the value that it is read to. -/
theorem lookup_of_readFields {w : Assoc Expression} {fields : List (String × Shape)}
    {known : Assoc Value} (hd : Assoc.Distinct fields) (h : readFields below w fields = some known)
    {field : String × Shape} (hf : field ∈ fields) :
    below field.2 (w.lookup field.1) = .ofField (known.lookup field.1) := by
  obtain ⟨hread, rfl⟩ := Reading.collect_eq_some_iff.1 h
  let values : Assoc (Option Value) :=
    fields.map fun field => (field.1, (below field.2 (w.lookup field.1)).value?)
  have hvalues : Assoc.Distinct values := by
    unfold Assoc.Distinct Assoc.keys values
    rw [List.map_map]
    exact hd
  have hpresent : fields.filterMap (fun field =>
      (below field.2 (w.lookup field.1)).value?.map (field.1, ·)) = Assoc.present values := by
    unfold Assoc.present values
    rw [List.filterMap_map]
    rfl
  have hmem : (field.1, (below field.2 (w.lookup field.1)).value?) ∈ values :=
    List.mem_map_of_mem hf
  rw [hpresent, hvalues.lookup_present, hvalues.lookup_of_mem hmem]
  exact Reading.eq_ofField (hread field hf)

/-- Nothing is kept under keys that mean nothing. -/
theorem readOthers_none {mode : Mode} {w : Assoc Expression} {rest : Assoc Value}
    (h : readOthers below mode none w = some rest) : rest = [] := by
  obtain ⟨-, rfl⟩ := Reading.collect_eq_some_iff.1 h
  refine List.filterMap_eq_nil_iff.2 fun entry _ => ?_
  by_cases hmode : mode = .strict
  · simp [hmode, Reading.value?]
  · simp [hmode, Reading.value?]

/-- **An accepted object of known fields has the value of each of them.** -/
theorem exists_fields {fields : List (String × Shape)} (hd : Assoc.Distinct fields)
    (h : read cx n (.object fields none) o ≠ .failed) :
    ∃ m x entries w vs, n = m + 1 ∧ o = some x ∧ cx.scope.resolve x = .object entries ∧
      Entry.keyed? entries = some w ∧
      read cx n (.object fields none) o = .present (.object vs) ∧
      ∀ field ∈ fields, read cx m field.2 (w.lookup field.1) = .ofField (vs.lookup field.1) := by
  obtain ⟨m, x, entries, v, rfl, rfl, hx, hv, hread⟩ := exists_object h
  obtain ⟨w, hw, known, hknown, rest, hrest, rfl⟩ := readObject_eq_some_iff.1 hv
  obtain rfl := readOthers_none hrest
  rw [List.append_nil] at hread
  exact ⟨m, x, entries, w, known, rfl, rfl, hx, hw, hread,
    fun field hf => lookup_of_readFields hd hknown hf⟩

/-! ## 2. Records -/

/-- Where nothing is ever left out, all keys are kept. -/
theorem readOthers_of_not_absent {mode : Mode} {s : Shape} (hs : ∀ x, below s (some x) ≠ .absent)
    {w : Assoc Expression} {vs : Assoc Value} (h : readOthers below mode (some s) w = some vs) :
    Assoc.keys vs = Assoc.keys w ∧ ∀ key x, w.lookup key = some x →
      ∃ v, vs.lookup key = some v ∧ below s (some x) = .present v := by
  induction w generalizing vs with
  | nil =>
    obtain rfl := Option.some.inj h
    exact ⟨rfl, fun key x hx => by cases hx⟩
  | cons entry w ih =>
    obtain ⟨key, x⟩ := entry
    rw [readOthers, Reading.collect] at h
    dsimp only at h
    cases hx : below s (some x) with
    | failed =>
      rw [hx] at h
      cases h
    | absent => exact absurd hx (hs x)
    | present v =>
      rw [hx] at h
      obtain ⟨vs', hvs', rfl⟩ := Option.map_eq_some_iff.1 h
      obtain ⟨hkeys, hlookup⟩ := ih hvs'
      refine ⟨by rw [Assoc.keys_cons, Assoc.keys_cons, hkeys], fun key' x' hx' => ?_⟩
      rw [List.lookup_cons] at hx' ⊢
      cases hkey : key' == key with
      | true =>
        rw [hkey] at hx'
        obtain rfl := Option.some.inj hx'
        exact ⟨v, rfl, hx⟩
      | false =>
        rw [hkey] at hx'
        exact hlookup key' x' hx'

/-- **An accepted record has the keys of the object, and each with the value that is read.** -/
theorem exists_record {s : Shape} (hs : ¬ Omissible s) (h : read cx n (.record s) o ≠ .failed) :
    ∃ m x entries w vs, n = m + 1 ∧ o = some x ∧ cx.scope.resolve x = .object entries ∧
      Entry.keyed? entries = some w ∧ read cx n (.record s) o = .present (.object vs) ∧
      Assoc.keys vs = Assoc.keys w ∧ ∀ key y, w.lookup key = some y →
        ∃ v, vs.lookup key = some v ∧ read cx m s (some y) = .present v := by
  obtain ⟨m, x, entries, v, rfl, rfl, hx, hv, hread⟩ := exists_object h
  obtain ⟨w, hw, known, hknown, rest, hrest, rfl⟩ := readObject_eq_some_iff.1 hv
  obtain rfl := Option.some.inj hknown
  have hall : (w.filter fun entry => !([] : List (String × Shape)).any
      fun field => field.1 == entry.1) = w := List.filter_eq_self.2 fun _ _ => rfl
  rw [hall] at hrest
  have habsent (y : Expression) : read cx m s (some y) ≠ .absent := by
    intro hy
    have hsuits := suits_read cx m s (some y)
    rw [hy] at hsuits
    exact hs hsuits.omissible
  obtain ⟨hkeys, hlookup⟩ := readOthers_of_not_absent habsent hrest
  exact ⟨m, x, entries, w, rest, rfl, rfl, hx, hw, hread, hkeys, hlookup⟩

/-! ## 3. Keys that may be left out -/

/-- What is read where a key may be left out. -/
theorem exists_of_read_optional {inner : Shape} {v : Option Value}
    (h : read cx n (.optional inner) o = .ofField v) :
    (o = none ∧ v = none) ∨ ∃ x, o = some x ∧ read cx n inner (some x) = .ofField v := by
  cases o with
  | none =>
    cases n with
    | zero => exact absurd rfl (Reading.ne_failed_of_eq_ofField h)
    | succ m =>
      cases v with
      | none => exact .inl ⟨rfl, rfl⟩
      | some v => cases h
  | some x =>
    rw [read_optional_some] at h
    exact .inr ⟨x, rfl, h⟩

end Shape

end Statechart
