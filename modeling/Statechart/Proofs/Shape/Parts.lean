import Statechart.Proofs.Entries
import Statechart.Proofs.Shape.Forms

/-!
# Acceptance part by part

Whether an object, an array or a call is accepted, in terms of what is written in it. Main
statement: an object is accepted just where its keys are written out, each field is accepted with
what is written last under its key, and so are the other keys.
-/

namespace Statechart.Shape

variable {cx : Context} {n : Nat} {s : Shape} {x : Expression}

/-! ## 1. Keys that are left out -/

/-- Whether a key may be left out is the same on all levels. -/
theorem read_none_ne_failed (h : read cx n s none ≠ .failed) (m : Nat) :
    read cx (m + 1) s none ≠ .failed := by
  induction n, s using level_induction with
  | plain n s hs => exact absurd (read_none hs.direct) h
  | creatorCall n _ => exact absurd (read_none (s := .creatorCall) trivial) h
  | implementation n _ => exact absurd (read_none (s := .implementation) trivial) h
  | array n element _ => exact absurd (read_none (s := .array element) trivial) h
  | object n fields others _ _ =>
    exact absurd (read_none (s := .object fields others) trivial) h
  | ignored n | optional n _ _ =>
    intro hfailed
    cases hfailed
  | rule n r ih =>
    rw [read_rule_eq] at h ⊢
    exact ih h
  | oneOf n alternatives ih =>
    obtain ⟨s, hs, hread⟩ := exists_alternative_of_ne_failed h
    exact read_oneOf_ne_failed hs (ih s hs hread)

/-! ## 2. Objects, arrays and calls -/

/-- **An object is accepted if its keys are written out and what is written under them is.** -/
theorem read_object_ne_failed_iff {fields : List (String × Shape)} {others : Option Shape}
    {entries : List Entry} (hx : cx.scope.resolve x = .object entries) :
    read cx (n + 1) (.object fields others) (some x) ≠ .failed ↔
      (∃ w, Entry.keyed? entries = some w) ∧
        (∀ field ∈ fields, read cx n field.2 (Entry.last? entries field.1) ≠ .failed) ∧
        ∀ key y, Entry.last? entries key = some y → key ∉ Assoc.keys fields →
          (∀ s, others = some s → read cx n s (some y) ≠ .failed) ∧
            (others = none → cx.settings.mode ≠ .strict) := by
  have hunknown (key : String) :
      (!fields.any fun field => field.1 == key) = true ↔ key ∉ Assoc.keys fields := by
    rw [Bool.not_eq_true', List.any_eq_false, Assoc.keys, List.mem_map]
    simp only [beq_iff_eq, not_exists, not_and]
  constructor
  · intro h
    obtain ⟨m, x', entries', v, hm, hxx, hx', hv, -⟩ := exists_object h
    obtain rfl := Nat.succ.inj hm
    obtain rfl := Option.some.inj hxx
    obtain rfl := Expression.object.inj (hx.symm.trans hx')
    obtain ⟨w, hw, known, hknown, rest, hrest, -⟩ := readObject_eq_some_iff.1 hv
    obtain ⟨-, -, hlast⟩ := Entry.keys_of_keyed? hw
    refine ⟨⟨w, hw⟩, fun field hf => ?_, fun key y hy hkey => ?_⟩
    · rw [← hlast]
      exact (Reading.collect_eq_some_iff.1 hknown).1 field hf
    · rw [← hlast] at hy
      have hread := (Reading.collect_eq_some_iff.1 hrest).1 (key, y)
        (List.mem_filter.2 ⟨Assoc.mem_of_lookup hy, (hunknown key).2 hkey⟩)
      refine ⟨fun s hs => ?_, fun hnone hmode => ?_⟩
      · rw [hs] at hread
        exact hread
      · rw [hnone, hmode] at hread
        exact hread rfl
  · intro h
    obtain ⟨⟨w, hw⟩, hfields, hothers⟩ := h
    obtain ⟨-, hkeys, hlast⟩ := Entry.keys_of_keyed? hw
    have hdistinct : Assoc.Distinct w := by
      rw [Assoc.Distinct, hkeys]
      exact nodup_eraseDups _
    obtain ⟨known, hknown⟩ : ∃ known, readFields (read cx n) w fields = some known := by
      refine ⟨_, Reading.collect_eq_some_iff.2 ⟨fun field hf => ?_, rfl⟩⟩
      rw [hlast]
      exact hfields field hf
    obtain ⟨rest, hrest⟩ : ∃ rest, readOthers (read cx n) cx.settings.mode others
        (w.filter fun entry => !fields.any fun field => field.1 == entry.1) = some rest := by
      refine ⟨_, Reading.collect_eq_some_iff.2 ⟨fun entry hentry => ?_, rfl⟩⟩
      obtain ⟨key, y⟩ := entry
      obtain ⟨hmem, hkey⟩ := List.mem_filter.1 hentry
      have hy := (hlast key).symm.trans (hdistinct.lookup_of_mem hmem)
      obtain ⟨hsome, hnone⟩ := hothers key y hy ((hunknown key).1 hkey)
      cases others with
      | some s => exact hsome s rfl
      | none => simp [hnone rfl]
    have hv := readObject_eq_some_iff.2 ⟨w, hw, known, hknown, rest, hrest, rfl⟩
    rw [read_object_of_readObject hx hv]
    intro hfailed
    cases hfailed

theorem read_array_ne_failed_iff {element : Shape} {items : List Expression}
    (hx : cx.scope.resolve x = .array items) :
    read cx (n + 1) (.array element) (some x) ≠ .failed ↔
      ∀ item ∈ items, read cx n element (some item) ≠ .failed := by
  constructor
  · intro h
    obtain ⟨m, x', items', vs, hm, hxx, hx', hvs, -⟩ := exists_array h
    obtain rfl := Nat.succ.inj hm
    obtain rfl := Option.some.inj hxx
    obtain rfl := Expression.array.inj (hx.symm.trans hx')
    exact (Reading.collect_eq_some_iff.1 hvs).1
  · intro h
    rw [read_array_of_readItems hx (Reading.collect_eq_some_iff.2 ⟨h, rfl⟩)]
    intro hfailed
    cases hfailed

/-- A call to a creator of actions is accepted, and one that chooses if its branches are. -/
theorem read_creatorCall_ne_failed_iff {callee : Expression} {args : List Expression}
    (hx : cx.scope.resolve x = .call callee args) :
    read cx (n + 1) .creatorCall (some x) ≠ .failed ↔
      ∃ name, cx.creator? callee = some name ∧
        (name = "choose" → read cx n (.rule .branches) args.head? ≠ .failed) := by
  have hbranches (h : read cx n (.rule .branches) args.head? ≠ .failed) :
      ∃ v, read cx n (.rule .branches) args.head? = .present v := by
    rw [read_rule_eq] at h ⊢
    obtain ⟨_, _, v, -, -, -, hv⟩ := exists_resolved h trivial
    exact ⟨v, hv⟩
  rw [read_some (s := .creatorCall) trivial, hx, readResolved, readCreatorCall]
  cases hname : cx.creator? callee with
  | none => simp [Reading.ofOption]
  | some name =>
    by_cases hchoose : name = "choose"
    · by_cases h : read cx n (.rule .branches) args.head? = .failed
      · simp [hchoose, h, Reading.ofOption]
      · obtain ⟨v, hv⟩ := hbranches h
        simp [hchoose, hv, Reading.ofOption]
    · simp [hchoose, Reading.ofOption]

/-- A call is an implementation if it is one to a creator of actions. -/
theorem read_implementation_of_call {callee : Expression} {args : List Expression}
    (hx : cx.scope.resolve x = .call callee args) :
    read cx n .implementation (some x) = read cx n .creatorCall (some x) := by
  cases n with
  | zero => rfl
  | succ n =>
    rw [read_some (s := .implementation) trivial, read_some (s := .creatorCall) trivial, hx]
    rfl

end Statechart.Shape
