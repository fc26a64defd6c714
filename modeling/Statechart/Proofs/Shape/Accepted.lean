import Statechart.Proofs.Shape.Levels

/-!
# What is accepted

What an accepted expression looks like at one kind of shape, one lemma for each: an answer of
several alternatives is that of the first which accepts, and an accepted object has no keys but
written ones and is read field by field.
-/

namespace Statechart

namespace Reading

/-- The value that is present. -/
def value? : Reading → Option Value
  | present v => some v
  | _ => none

/-- **What is collected are the values among the readings, and none of these has failed.** -/
theorem collect_eq_some_iff {α β : Type} {read : α → Reading} {keep : α → Value → β}
    {items : List α} {out : List β} :
    collect read keep items = some out ↔
      (∀ a ∈ items, read a ≠ failed) ∧
        out = items.filterMap fun a => (read a).value?.map (keep a) := by
  induction items generalizing out with
  | nil => simp [collect, eq_comm]
  | cons a rest ih =>
    rw [collect, List.forall_mem_cons]
    cases ha : read a with
    | failed => simp
    | absent => simp [ha, value?, ih]
    | present v =>
      simp only [Option.map_eq_some_iff, ih]
      constructor
      · intro h
        obtain ⟨_, ⟨hrest, rfl⟩, rfl⟩ := h
        exact ⟨⟨by simp, hrest⟩, by simp [ha, value?]⟩
      · intro h
        obtain ⟨⟨-, hrest⟩, rfl⟩ := h
        exact ⟨_, ⟨hrest, rfl⟩, by simp [ha, value?]⟩

end Reading

namespace Shape

variable {cx : Context} {n : Nat} {s : Shape} {o : Option Expression} {r : Reading} {v : Value}

/-! ## 1. Alternatives -/

/-- What is accepted is on some level. -/
theorem exists_level (h : read cx n s o ≠ .failed) : ∃ m, n = m + 1 := by
  cases n with
  | zero => exact absurd rfl h
  | succ m => exact ⟨m, rfl⟩

@[simp] theorem read_oneOf_nil : read cx n (.oneOf []) o = .failed := by
  cases n <;> rfl

theorem read_oneOf_of_ne_failed {rest : List Shape} (h : read cx (n + 1) s o ≠ .failed) :
    read cx (n + 1) (.oneOf (s :: rest)) o = read cx (n + 1) s o := by
  rw [read] at h ⊢
  rw [readLevel, readFirst]
  split
  · next hfailed => exact absurd hfailed h
  · rfl

/-- **Several alternatives answer as the first of them that accepts.** -/
theorem read_oneOf_eq_iff {alternatives : List Shape} (hr : r ≠ .failed) :
    read cx n (.oneOf alternatives) o = r ↔
      ∃ before s after, alternatives = before ++ s :: after ∧
        (∀ t ∈ before, read cx n t o = .failed) ∧ read cx n s o = r := by
  cases n with
  | zero =>
    constructor
    · intro h
      exact absurd h.symm hr
    · intro h
      obtain ⟨_, s, _, -, -, hs⟩ := h
      exact absurd hs.symm hr
  | succ n =>
    induction alternatives with
    | nil =>
      constructor
      · intro h
        exact absurd (read_oneOf_nil.symm.trans h).symm hr
      · intro h
        obtain ⟨before, s, after, h, -⟩ := h
        cases before <;> cases h
    | cons s rest ih =>
      by_cases hs : read cx (n + 1) s o = .failed
      · rw [read_oneOf_of_failed hs, ih]
        constructor
        · intro h
          obtain ⟨before, t, after, rfl, hbefore, ht⟩ := h
          exact ⟨s :: before, t, after, rfl, List.forall_mem_cons.2 ⟨hs, hbefore⟩, ht⟩
        · intro h
          obtain ⟨before, t, after, h, hbefore, ht⟩ := h
          cases before with
          | nil =>
            obtain ⟨rfl, rfl⟩ := List.cons.inj h
            exact absurd (ht.symm.trans hs) hr
          | cons s' before =>
            obtain ⟨rfl, rfl⟩ := List.cons.inj h
            exact ⟨before, t, after, rfl, (List.forall_mem_cons.1 hbefore).2, ht⟩
      · rw [read_oneOf_of_ne_failed hs]
        constructor
        · intro h
          exact ⟨[], s, rest, rfl, List.forall_mem_nil _, h⟩
        · intro h
          obtain ⟨before, t, after, h, hbefore, ht⟩ := h
          cases before with
          | nil =>
            obtain ⟨rfl, rfl⟩ := List.cons.inj h
            exact ht
          | cons s' before =>
            obtain ⟨rfl, rfl⟩ := List.cons.inj h
            exact absurd (hbefore s List.mem_cons_self) hs

/-- What several alternatives accept, one of them does. -/
theorem exists_alternative {alternatives : List Shape}
    (h : read cx n (.oneOf alternatives) o ≠ .failed) :
    ∃ s ∈ alternatives, read cx n s o = read cx n (.oneOf alternatives) o := by
  obtain ⟨before, s, after, rfl, -, hs⟩ := (read_oneOf_eq_iff h).1 rfl
  exact ⟨s, by simp, hs⟩

theorem exists_alternative_of_ne_failed {alternatives : List Shape}
    (h : read cx n (.oneOf alternatives) o ≠ .failed) :
    ∃ s ∈ alternatives, read cx n s o ≠ .failed := by
  obtain ⟨s, hs, hread⟩ := exists_alternative h
  refine ⟨s, hs, ?_⟩
  rw [hread]
  exact h

theorem read_oneOf_ne_failed {alternatives : List Shape} (hs : s ∈ alternatives)
    (h : read cx n s o ≠ .failed) : read cx n (.oneOf alternatives) o ≠ .failed := by
  obtain ⟨m, rfl⟩ := exists_level h
  induction alternatives with
  | nil => exact absurd hs List.not_mem_nil
  | cons t rest ih =>
    by_cases ht : read cx (m + 1) t o = .failed
    · rw [read_oneOf_of_failed ht]
      rcases List.mem_cons.1 hs with rfl | hs
      · exact absurd ht h
      · exact ih hs
    · rw [read_oneOf_of_ne_failed ht]
      exact ht

theorem read_rule_eq (r : Rule) : read cx n (.rule r) o = read cx n (ofRule r) o := by
  cases n with
  | zero => rfl
  | succ n => exact read_rule r o

theorem read_optional_some {x : Expression} :
    read cx n (.optional s) (some x) = read cx n s (some x) := by
  cases n <;> rfl

/-! ## 2. What an expression is -/

/-- The shape looks at what an expression is at the end of its names. -/
def Direct : Shape → Prop
  | .optional _ | .ignored | .oneOf _ | .rule _ => False
  | _ => True

theorem read_some (hs : s.Direct) (x : Expression) :
    read cx (n + 1) s (some x) =
      .ofOption (readResolved (read cx n) cx s (cx.scope.resolve x)) := by
  cases s with
  | optional _ | ignored | oneOf _ | rule _ => exact hs.elim
  | _ => rfl

theorem read_none (hs : s.Direct) : read cx n s none = .failed := by
  cases s with
  | optional _ | ignored | oneOf _ | rule _ => exact hs.elim
  | _ => cases n <;> rfl

theorem read_of_readResolved {x : Expression} (hs : s.Direct)
    (h : readResolved (read cx n) cx s (cx.scope.resolve x) = some v) :
    read cx (n + 1) s (some x) = .present v := by
  rw [read_some hs, h]
  rfl

/-- What such a shape accepts is there and is read, with the level below. -/
theorem exists_resolved (h : read cx n s o ≠ .failed) (hs : s.Direct) :
    ∃ m x v, n = m + 1 ∧ o = some x ∧
      readResolved (read cx m) cx s (cx.scope.resolve x) = some v ∧ read cx n s o = .present v := by
  obtain ⟨m, rfl⟩ := exists_level h
  cases o with
  | none => exact absurd (read_none hs) h
  | some x =>
    cases hv : readResolved (read cx m) cx s (cx.scope.resolve x) with
    | none =>
      rw [read_some hs, hv] at h
      exact absurd rfl h
    | some v => exact ⟨m, x, v, rfl, rfl, hv, read_of_readResolved hs hv⟩

/-! ## 3. Objects, arrays and calls -/

/-- An object is accepted as an object, or not at all. -/
theorem exists_object {fields : List (String × Shape)} {others : Option Shape}
    (h : read cx n (.object fields others) o ≠ .failed) :
    ∃ m x entries v, n = m + 1 ∧ o = some x ∧ cx.scope.resolve x = .object entries ∧
      readObject (read cx m) cx.settings.mode fields others entries = some v ∧
      read cx n (.object fields others) o = .present v := by
  obtain ⟨m, x, v, rfl, rfl, hv, hread⟩ := exists_resolved h trivial
  cases hx : cx.scope.resolve x with
  | object entries =>
    rw [hx] at hv
    exact ⟨m, x, entries, v, rfl, rfl, hx, hv, hread⟩
  | _ =>
    rw [hx] at hv
    cases hv

theorem exists_array {element : Shape} (h : read cx n (.array element) o ≠ .failed) :
    ∃ m x items vs, n = m + 1 ∧ o = some x ∧ cx.scope.resolve x = .array items ∧
      readItems (read cx m) element items = some vs ∧
      read cx n (.array element) o = .present (.array vs) := by
  obtain ⟨m, x, v, rfl, rfl, hv, hread⟩ := exists_resolved h trivial
  cases hx : cx.scope.resolve x with
  | array items =>
    rw [hx] at hv
    obtain ⟨vs, hvs, rfl⟩ := Option.map_eq_some_iff.1 hv
    exact ⟨m, x, items, vs, rfl, rfl, hx, hvs, hread⟩
  | _ =>
    rw [hx] at hv
    cases hv

/-- A call to a creator of actions is accepted as its type, and for a choice with its branches. -/
theorem exists_creatorCall (h : read cx n .creatorCall o ≠ .failed) :
    ∃ m x callee args v, n = m + 1 ∧ o = some x ∧ cx.scope.resolve x = .call callee args ∧
      readCreatorCall (read cx m) cx (.call callee args) = some v ∧
      read cx n .creatorCall o = .present v := by
  obtain ⟨m, x, v, rfl, rfl, hv, hread⟩ := exists_resolved h trivial
  cases hx : cx.scope.resolve x with
  | call callee args =>
    rw [hx] at hv
    exact ⟨m, x, callee, args, v, rfl, rfl, hx, hv, hread⟩
  | _ =>
    rw [hx] at hv
    cases hv

theorem read_object_of_readObject {fields : List (String × Shape)} {others : Option Shape}
    {x : Expression} {entries : List Entry} (hx : cx.scope.resolve x = .object entries)
    (h : readObject (read cx n) cx.settings.mode fields others entries = some v) :
    read cx (n + 1) (.object fields others) (some x) = .present v := by
  refine read_of_readResolved trivial ?_
  rw [hx]
  exact h

theorem read_array_of_readItems {element : Shape} {x : Expression} {items : List Expression}
    {vs : List Value} (hx : cx.scope.resolve x = .array items)
    (h : readItems (read cx n) element items = some vs) :
    read cx (n + 1) (.array element) (some x) = .present (.array vs) := by
  refine read_of_readResolved trivial ?_
  rw [hx, readResolved, h]
  rfl

theorem read_creatorCall_of_readCreatorCall {x callee : Expression} {args : List Expression}
    (hx : cx.scope.resolve x = .call callee args)
    (h : readCreatorCall (read cx n) cx (.call callee args) = some v) :
    read cx (n + 1) .creatorCall (some x) = .present v := by
  refine read_of_readResolved trivial ?_
  rw [hx]
  exact h

/-- An object is read field by field and then key by key. -/
theorem readObject_eq_some_iff {below : Reader} {mode : Mode} {fields : List (String × Shape)}
    {others : Option Shape} {entries : List Entry} :
    readObject below mode fields others entries = some v ↔
      ∃ m, Entry.keyed? entries = some m ∧ ∃ known, readFields below m fields = some known ∧
        ∃ rest, readOthers below mode others
            (m.filter fun entry => !fields.any fun field => field.1 == entry.1) = some rest ∧
          v = .object (known ++ rest) := by
  unfold readObject
  simp only [Option.bind_eq_bind, Option.bind_eq_some_iff, Option.pure_def, Option.some.injEq,
    eq_comm (a := v)]

end Shape

end Statechart
