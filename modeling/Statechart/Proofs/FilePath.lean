import Statechart.FilePath

/-!
# Paths and their spellings

Spellings of one path are those with the same components. Main statements: comparing paths is a
linear order of their components, so that exactly the spellings of one path compare as equal, and
all of them have the same dialect; one path is before another by the first component that differs.
-/

namespace Statechart

/-! ## 1. Components -/

namespace PathComponent

theorem compare_eq_compareLex :
    PathComponent.compare =
      compareLex (compareOn PathComponent.rank) (compareOn PathComponent.text) :=
  rfl

theorem eq_of_rank_of_text {a b : PathComponent} (hrank : a.rank = b.rank)
    (htext : a.text = b.text) : a = b := by
  cases a <;> cases b <;> simp_all [rank, text]

instance : Std.TransCmp PathComponent.compare := by
  rw [compare_eq_compareLex]
  infer_instance

instance : Std.LawfulEqCmp PathComponent.compare where
  compare_self := Std.ReflCmp.compare_self
  eq_of_compare {a b} h := by
    obtain ⟨hrank, htext⟩ := Ordering.then_eq_eq.1 h
    exact eq_of_rank_of_text (Std.LawfulEqOrd.eq_of_compare hrank)
      (Std.LawfulEqOrd.eq_of_compare htext)

/-- **One component is before another** by its sort, and among names by its text. -/
inductive Before : PathComponent → PathComponent → Prop
  | sort {a b : PathComponent} (h : a.rank < b.rank) : Before a b
  | name {s t : String} (h : s < t) : Before (.name s) (.name t)

theorem compare_eq_lt_iff {a b : PathComponent} : a.compare b = .lt ↔ a.Before b := by
  have hcompare : Ord.compare a.text b.text = .lt ↔ a.text < b.text := compareOfLessAndEq_eq_lt
  unfold compare
  rw [Ordering.then_eq_lt, Nat.compare_eq_lt, Nat.compare_eq_eq, hcompare]
  constructor
  · intro h
    rcases h with hrank | ⟨hrank, htext⟩
    · exact .sort hrank
    · -- other components of one sort have one text
      cases a <;> cases b <;> first
        | exact .name htext
        | exact absurd htext (String.lt_irrefl _)
        | cases hrank
  · intro h
    cases h with
    | sort hrank => exact .inl hrank
    | name h => exact .inr ⟨rfl, h⟩

end PathComponent

/-! ## 2. Paths -/

namespace FilePath

theorem compareComponents_eq (as bs : List PathComponent) :
    compareComponents as bs = List.compareLex PathComponent.compare as bs := by
  induction as generalizing bs with
  | nil => cases bs <;> rfl
  | cons a as ih =>
    cases bs with
    | nil => rfl
    | cons b bs => rw [compareComponents, ih, List.compareLex_cons_cons]

theorem compare_eq_compareOn (p q : FilePath) :
    p.compare q = List.compareLex PathComponent.compare p.components q.components :=
  compareComponents_eq p.components q.components

theorem same_iff {p q : FilePath} : p.same q = true ↔ p.components = q.components := by
  unfold same
  exact decide_eq_true_iff

theorem same_self (p : FilePath) : p.same p = true := same_iff.2 rfl

theorem same_comm (p q : FilePath) : p.same q = q.same p := by
  rw [Bool.eq_iff_iff, same_iff, same_iff]
  exact eq_comm

/-- Spellings of one path are spellings of the same paths. -/
theorem same_congr {p q : FilePath} (h : p.same q = true) (r : FilePath) : p.same r = q.same r := by
  unfold same
  rw [same_iff.1 h]

/-- **Two paths compare as equal just if they are spellings of one.** -/
theorem compare_eq_eq_iff {p q : FilePath} : p.compare q = .eq ↔ p.same q = true := by
  rw [compare_eq_compareOn, same_iff]
  exact Std.LawfulEqCmp.compare_eq_iff_eq

theorem compare_eq_gt_iff {p q : FilePath} : p.compare q = .gt ↔ q.compare p = .lt := by
  rw [compare_eq_compareOn, compare_eq_compareOn]
  exact Std.OrientedCmp.gt_iff_lt

/-- Other spellings of a path compare as it does. -/
theorem compare_congr {p q : FilePath} (h : p.same q = true) (r : FilePath) :
    r.compare p = r.compare q := by
  unfold compare
  rw [same_iff.1 h]

theorem compare_lt_trans {p q r : FilePath} (hpq : p.compare q = .lt) (hqr : q.compare r = .lt) :
    p.compare r = .lt := by
  rw [compare_eq_compareOn] at *
  exact Std.TransCmp.lt_trans hpq hqr

theorem not_same_of_compare {p q : FilePath} (h : p.compare q ≠ .eq) : p.same q = false :=
  Bool.eq_false_iff.2 fun hsame => h (compare_eq_eq_iff.2 hsame)

/-- **One path is before another** by the first component that differs; a path is before all that
lead on from it. -/
def Before (p q : FilePath) : Prop := List.Lex PathComponent.Before p.components q.components

theorem compareComponents_eq_lt_iff {as bs : List PathComponent} :
    compareComponents as bs = .lt ↔ List.Lex PathComponent.Before as bs := by
  induction as generalizing bs with
  | nil =>
    cases bs with
    | nil => exact iff_of_false (by simp [compareComponents]) List.not_lex_nil
    | cons b bs => exact ⟨fun _ => .nil, fun _ => rfl⟩
  | cons a as ih =>
    cases bs with
    | nil => exact iff_of_false (by simp [compareComponents]) List.not_lex_nil
    | cons b bs =>
      rw [compareComponents, Ordering.then_eq_lt, PathComponent.compare_eq_lt_iff,
        Std.LawfulEqCmp.compare_eq_iff_eq, ih, List.cons_lex_cons_iff]

/-- **Paths compare as they are before one another.** -/
theorem compare_eq_lt_iff {p q : FilePath} : p.compare q = .lt ↔ p.Before q :=
  compareComponents_eq_lt_iff

theorem Before.asymm {p q : FilePath} (h : p.Before q) : ¬ q.Before p := by
  intro h'
  have hself := compare_lt_trans (compare_eq_lt_iff.2 h) (compare_eq_lt_iff.2 h')
  rw [compare_eq_eq_iff.2 (same_self p)] at hself
  cases hself

/-- Spellings of one path have the same dialect. -/
theorem dialect_of_same {p q : FilePath} (h : p.same q = true) : p.dialect = q.dialect := by
  unfold dialect extension
  rw [same_iff.1 h]

end FilePath

end Statechart
