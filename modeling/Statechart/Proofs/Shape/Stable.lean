import Mathlib.Data.List.Basic
import Statechart.Proofs.Shape.Forms

/-!
# Two readers

One reader is no stricter than another if it knows the same names, goes no less deep and passes over
unknown keys wherever the other does. Since alternatives are tried in turn, a reader that accepts
more might take an earlier one. Main statement: where the alternatives are apart, in the sense that
this never happens, the reader that is no stricter answers as the other does wherever that answers.
-/

namespace Statechart

/-- One reading is the other wherever that has not failed. -/
def Reading.Extends (r' r : Reading) : Prop := r ≠ .failed → r' = r

namespace Reading

theorem Extends.ne_failed {r' r : Reading} (h : r'.Extends r) (hr : r ≠ .failed) :
    r' ≠ .failed := by
  rw [h hr]
  exact hr

/-- What is collected stays when the readings are extended. -/
theorem collect_of_extends {α β : Type} {read read' : α → Reading} {keep : α → Value → β}
    {items : List α} {out : List β} (h : ∀ a ∈ items, (read' a).Extends (read a))
    (hout : collect read keep items = some out) : collect read' keep items = some out := by
  rw [collect_eq_some_iff] at *
  obtain ⟨hread, rfl⟩ := hout
  refine ⟨fun a ha => (h a ha).ne_failed (hread a ha), List.filterMap_congr fun a ha => ?_⟩
  rw [h a ha (hread a ha)]

end Reading

namespace Shape

/-! ## 1. Stricter and less strict -/

/-- Reading with `cx'` within `n'` levels is no stricter than with `cx` within `n`. -/
structure NoStricter (cx' : Context) (n' : Nat) (cx : Context) (n : Nat) : Prop where
  scope : cx'.scope = cx.scope
  creator : ∀ callee, cx'.creator? callee = cx.creator? callee
  mode : cx'.settings.mode = .strict → cx.settings.mode = .strict
  levels : n ≤ n'

/-- Within `n` levels the shape is read alike by all readers that are no stricter. -/
def StableAt (n : Nat) (s : Shape) : Prop :=
  ∀ cx' n' cx, NoStricter cx' n' cx n → ∀ o, (read cx' n' s o).Extends (read cx n s o)

/-- What the second shape accepts and the first does not, the first does not accept for a reader
that is no stricter either. -/
def Apart (s t : Shape) : Prop :=
  ∀ cx' n' cx n, NoStricter cx' n' cx n → ∀ o, read cx n s o = .failed →
    read cx n t o ≠ .failed → read cx' n' s o = .failed

section

variable {cx' cx : Context} {n' n : Nat} {s t : Shape} {o : Option Expression}

theorem NoStricter.resolve (h : NoStricter cx' n' cx n) (x : Expression) :
    cx'.scope.resolve x = cx.scope.resolve x := by
  rw [h.scope]

/-- A reader that is no stricter has a level for each of the other's. -/
theorem NoStricter.exists_below {m : Nat} (h : NoStricter cx' n' cx (m + 1)) :
    ∃ m', n' = m' + 1 ∧ NoStricter cx' m' cx m := by
  have hlevels := h.levels
  exact ⟨n' - 1, by omega, h.scope, h.creator, h.mode, by omega⟩

theorem Disjoint.apart (h : Disjoint s t) : Apart s t := by
  intro cx' n' cx n hlax o _ ht
  refine Classical.byContradiction fun hs => ?_
  have hadmits := admits_of_read hs
  rw [hlax.scope] at hadmits
  exact h _ hadmits (admits_of_read ht)

/-- Objects are apart if there is a field in which they admit nothing in common. -/
theorem apart_of_field {fields fields' : List (String × Shape)} {others others' : Option Shape}
    {key : String} {a b : Shape} (ha : (key, a) ∈ fields) (hb : (key, b) ∈ fields')
    (h : Disjoint a b) : Apart (.object fields others) (.object fields' others') := by
  intro cx' n' cx n hlax o _ ht
  refine Classical.byContradiction fun hs => ?_
  obtain ⟨m', x', entries', _, rfl, rfl, hx', hread', -⟩ := exists_object hs
  obtain ⟨m, x, entries, _, rfl, hxx, hx, hread, -⟩ := exists_object ht
  obtain rfl := Option.some.inj hxx
  rw [hlax.resolve, hx] at hx'
  obtain rfl := Expression.object.inj hx'
  obtain ⟨w', hw', known', hknown', -⟩ := readObject_eq_some_iff.1 hread'
  obtain ⟨w, hw, known, hknown, -⟩ := readObject_eq_some_iff.1 hread
  obtain rfl := Option.some.inj (hw'.symm.trans hw)
  have hs' := (Reading.collect_eq_some_iff.1 hknown').1 _ ha
  have ht' := (Reading.collect_eq_some_iff.1 hknown).1 _ hb
  have hadmits := admits_of_read hs'
  rw [hlax.scope] at hadmits
  exact h _ hadmits (admits_of_read ht')

end

/-! ## 2. One kind of shape after the other -/

variable {n : Nat} {s : Shape}

theorem stableAt_plain (hs : Plain s) : StableAt n s := by
  intro cx' n' cx hlax o ho
  obtain ⟨m, x, v, rfl, rfl, hv, hread⟩ := exists_resolved ho hs.direct
  obtain ⟨m', rfl, -⟩ := hlax.exists_below
  rw [hread]
  refine read_of_readResolved hs.direct ?_
  rw [hlax.resolve, readResolved_plain hs, hv]

theorem stableAt_ignored : StableAt n .ignored := by
  intro cx' n' cx hlax o ho
  obtain ⟨m, rfl⟩ := exists_level ho
  obtain ⟨m', rfl, -⟩ := hlax.exists_below
  rfl

theorem stableAt_optional {inner : Shape} (h : StableAt n inner) :
    StableAt n (.optional inner) := by
  intro cx' n' cx hlax o ho
  obtain ⟨m, rfl⟩ := exists_level ho
  cases o with
  | none =>
    obtain ⟨m', rfl, -⟩ := hlax.exists_below
    rfl
  | some x =>
    have hinner := h cx' n' cx hlax (some x) ho
    obtain ⟨m', rfl, -⟩ := hlax.exists_below
    exact hinner

theorem stableAt_rule {r : Rule} (h : StableAt n (ofRule r)) : StableAt n (.rule r) := by
  intro cx' n' cx hlax o
  rw [read_rule_eq, read_rule_eq]
  exact h cx' n' cx hlax o

/-- **Alternatives that are apart are taken alike.** -/
theorem stableAt_oneOf {alternatives : List Shape} (h : ∀ s ∈ alternatives, StableAt n s)
    (hapart : alternatives.Pairwise Apart) : StableAt n (.oneOf alternatives) := by
  intro cx' n' cx hlax o ho
  obtain ⟨before, s, after, rfl, hbefore, hs⟩ := (read_oneOf_eq_iff ho).1 rfl
  refine (read_oneOf_eq_iff ho).2 ⟨before, s, after, rfl, fun t ht => ?_, ?_⟩
  · have hts : Apart t s := (List.pairwise_append.1 hapart).2.2 t ht s List.mem_cons_self
    refine hts cx' n' cx n hlax o (hbefore t ht) ?_
    rw [hs]
    exact ho
  · rw [← hs] at ho ⊢
    exact h s (by simp) cx' n' cx hlax o ho

section Below

variable {m : Nat}

theorem readFields_of_stable {cx' cx : Context} {m' : Nat} (hlax : NoStricter cx' m' cx m)
    {w : Assoc Expression} {fields : List (String × Shape)}
    (h : ∀ field ∈ fields, StableAt m field.2) {known : Assoc Value}
    (hknown : readFields (read cx m) w fields = some known) :
    readFields (read cx' m') w fields = some known :=
  Reading.collect_of_extends (fun field hf => h field hf cx' m' cx hlax _) hknown

theorem readOthers_of_stable {cx' cx : Context} {m' : Nat} (hlax : NoStricter cx' m' cx m)
    {w : Assoc Expression} {others : Option Shape} (h : ∀ s, others = some s → StableAt m s)
    {rest : Assoc Value}
    (hrest : readOthers (read cx m) cx.settings.mode others w = some rest) :
    readOthers (read cx' m') cx'.settings.mode others w = some rest := by
  refine Reading.collect_of_extends (fun entry _ => ?_) hrest
  cases others with
  | some s => exact h s rfl cx' m' cx hlax (some entry.2)
  | none =>
    intro hread
    by_cases hmode : cx'.settings.mode = .strict
    · simp [hlax.mode hmode] at hread
    · by_cases hmode' : cx.settings.mode = .strict
      · simp [hmode'] at hread
      · simp [hmode, hmode']

theorem stableAt_object {fields : List (String × Shape)} {others : Option Shape}
    (hfields : ∀ field ∈ fields, ∀ m < n, StableAt m field.2)
    (hothers : ∀ s, others = some s → ∀ m < n, StableAt m s) :
    StableAt n (.object fields others) := by
  intro cx' n' cx hlax o ho
  obtain ⟨m, x, entries, v, rfl, rfl, hx, hv, hread⟩ := exists_object ho
  obtain ⟨m', rfl, hbelow⟩ := hlax.exists_below
  obtain ⟨w, hw, known, hknown, rest, hrest, rfl⟩ := readObject_eq_some_iff.1 hv
  have hlt : m < m + 1 := Nat.lt_succ_self m
  have hv' : readObject (read cx' m') cx'.settings.mode fields others entries =
      some (.object (known ++ rest)) :=
    readObject_eq_some_iff.2 ⟨w, hw, known,
      readFields_of_stable hbelow (fun field hf => hfields field hf m hlt) hknown, rest,
      readOthers_of_stable hbelow (fun s hs => hothers s hs m hlt) hrest, rfl⟩
  rw [hread]
  refine read_object_of_readObject ?_ hv'
  rw [hlax.resolve, hx]

theorem stableAt_array {element : Shape} (h : ∀ m < n, StableAt m element) :
    StableAt n (.array element) := by
  intro cx' n' cx hlax o ho
  obtain ⟨m, x, items, vs, rfl, rfl, hx, hvs, hread⟩ := exists_array ho
  obtain ⟨m', rfl, hbelow⟩ := hlax.exists_below
  have hvs' : readItems (read cx' m') element items = some vs :=
    Reading.collect_of_extends
      (fun item _ => h m (Nat.lt_succ_self m) cx' m' cx hbelow (some item)) hvs
  rw [hread]
  refine read_array_of_readItems ?_ hvs'
  rw [hlax.resolve, hx]

theorem readCreatorCall_of_stable {cx' cx : Context} {m' : Nat} (hlax : NoStricter cx' m' cx m)
    (h : StableAt m (.rule .branches)) {x : Expression} {v : Value}
    (hv : readCreatorCall (read cx m) cx x = some v) :
    readCreatorCall (read cx' m') cx' x = some v := by
  unfold readCreatorCall at *
  split at hv
  · next callee args =>
    rw [hlax.creator]
    split at hv
    · cases hv
    · next name hname =>
      by_cases hchoose : name = "choose"
      · simp only [hchoose, if_true] at hv ⊢
        split at hv
        · next branches hbranches =>
          have hext := h cx' m' cx hlax args.head? (by rw [hbranches]; simp)
          rw [hext, hbranches]
          exact hv
        · cases hv
      · simp only [hchoose, if_false] at hv ⊢
        exact hv
  · cases hv

theorem stableAt_creatorCall (h : ∀ m < n, StableAt m (.rule .branches)) :
    StableAt n .creatorCall := by
  intro cx' n' cx hlax o ho
  obtain ⟨m, x, callee, args, v, rfl, rfl, hx, hv, hread⟩ := exists_creatorCall ho
  obtain ⟨m', rfl, hbelow⟩ := hlax.exists_below
  have hv' := readCreatorCall_of_stable hbelow (h m (Nat.lt_succ_self m)) hv
  rw [hread]
  refine read_creatorCall_of_readCreatorCall ?_ hv'
  rw [hlax.resolve, hx]

theorem stableAt_implementation (h : ∀ m < n, StableAt m (.rule .branches)) :
    StableAt n .implementation := by
  intro cx' n' cx hlax o ho
  obtain ⟨m, x, v, rfl, rfl, hv, hread⟩ := exists_resolved ho trivial
  obtain ⟨m', rfl, hbelow⟩ := hlax.exists_below
  rw [hread]
  refine read_of_readResolved trivial ?_
  rw [hlax.resolve]
  cases hx : cx.scope.resolve x with
  | call callee args =>
    rw [hx, readResolved] at hv
    rw [readResolved]
    exact readCreatorCall_of_stable hbelow (h m (Nat.lt_succ_self m)) hv
  | _ =>
    rw [hx] at hv
    exact hv

end Below

/-! ## 3. Shapes without ambiguity -/

/-- At every choice in the shape the alternatives are apart. -/
inductive Unambiguous : Shape → Prop
  | plain {s : Shape} (h : Plain s) : Unambiguous s
  | ignored : Unambiguous .ignored
  | creatorCall : Unambiguous .creatorCall
  | implementation : Unambiguous .implementation
  | rule (r : Rule) : Unambiguous (.rule r)
  | optional {inner : Shape} (h : Unambiguous inner) : Unambiguous (.optional inner)
  | array {element : Shape} (h : Unambiguous element) : Unambiguous (.array element)
  | object {fields : List (String × Shape)} {others : Option Shape}
      (hfields : ∀ field ∈ fields, Unambiguous field.2)
      (hothers : ∀ s, others = some s → Unambiguous s) : Unambiguous (.object fields others)
  | oneOf {alternatives : List Shape} (h : ∀ s ∈ alternatives, Unambiguous s)
      (hapart : alternatives.Pairwise Apart) : Unambiguous (.oneOf alternatives)

theorem Unambiguous.object_parts {fields : List (String × Shape)} {others : Option Shape}
    (h : Unambiguous (.object fields others)) :
    (∀ field ∈ fields, Unambiguous field.2) ∧ ∀ s, others = some s → Unambiguous s := by
  cases h with
  | plain h => simp [Plain] at h
  | object hfields hothers => exact ⟨hfields, hothers⟩

theorem Unambiguous.element (h : Unambiguous (.array s)) : Unambiguous s := by
  cases h with
  | plain h => simp [Plain] at h
  | array h => exact h

theorem Unambiguous.inner (h : Unambiguous (.optional s)) : Unambiguous s := by
  cases h with
  | plain h => simp [Plain] at h
  | optional h => exact h

theorem Unambiguous.alternatives {alternatives : List Shape}
    (h : Unambiguous (.oneOf alternatives)) :
    (∀ s ∈ alternatives, Unambiguous s) ∧ alternatives.Pairwise Apart := by
  cases h with
  | plain h => simp [Plain] at h
  | oneOf h hapart => exact ⟨h, hapart⟩

end Shape

end Statechart
