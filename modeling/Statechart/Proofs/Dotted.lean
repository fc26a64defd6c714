import Statechart.Text.Dotted

/-!
# Dotted names, joined and cut

Cutting undoes joining for a path of keys without dots. A text is told by its first character.
-/

namespace Statechart.Dotted

/-! ## 1. The first character -/

theorem uncons?_eq_some {text rest : String} {c : Char} :
    uncons? text = some (c, rest) ↔ text.toList = c :: rest.toList := by
  unfold uncons?
  cases h : text.toList with
  | nil => simp
  | cons c' cs =>
    simp only [Option.some.injEq, Prod.mk.injEq, List.cons.injEq]
    constructor
    · rintro ⟨rfl, rfl⟩
      exact ⟨rfl, by rw [String.toList_ofList]⟩
    · rintro ⟨rfl, rfl⟩
      exact ⟨rfl, by rw [String.ofList_toList]⟩

theorem toList_hash (r : String) : ("#" ++ r).toList = '#' :: r.toList := by
  rw [String.toList_append]
  rfl

theorem toList_dot (r : String) : ("." ++ r).toList = '.' :: r.toList := by
  rw [String.toList_append]
  rfl

/-- A text that starts with neither mark. -/
def Bare (text : String) : Prop := text.toList.head? ≠ some '#' ∧ text.toList.head? ≠ some '.'

instance (text : String) : Decidable (Bare text) := inferInstanceAs (Decidable (_ ∧ _))

/-- **A text starts with `#`, or with a dot, or with neither.** -/
theorem hash_or_dot_or_bare (text : String) :
    (∃ r, text = "#" ++ r) ∨ (∃ r, text = "." ++ r) ∨ Bare text := by
  cases h : text.toList with
  | nil => exact Or.inr (Or.inr (by simp [Bare, h]))
  | cons c cs =>
    by_cases hc : c = '#'
    · refine Or.inl ⟨String.ofList cs, ?_⟩
      rw [← String.toList_inj, toList_hash, String.toList_ofList, h, hc]
    · by_cases hd : c = '.'
      · refine Or.inr (Or.inl ⟨String.ofList cs, ?_⟩)
        rw [← String.toList_inj, toList_dot, String.toList_ofList, h, hd]
      · exact Or.inr (Or.inr (by simp [Bare, h, hc, hd]))

theorem not_bare_hash (r : String) : ¬ Bare ("#" ++ r) := by
  rintro ⟨h, -⟩
  exact h (by rw [toList_hash, List.head?_cons])

theorem not_bare_dot (r : String) : ¬ Bare ("." ++ r) := by
  rintro ⟨-, h⟩
  exact h (by rw [toList_dot, List.head?_cons])

theorem hash_ne_dot (r r' : String) : "#" ++ r ≠ "." ++ r' := by
  intro h
  have := congrArg String.toList h
  rw [toList_hash, toList_dot] at this
  exact absurd (List.cons.inj this).1 (by decide)

theorem hash_inj {r r' : String} (h : "#" ++ r = "#" ++ r') : r = r' := by
  have := congrArg String.toList h
  rw [toList_hash, toList_hash] at this
  exact String.toList_inj.1 (List.cons.inj this).2

theorem dot_inj {r r' : String} (h : "." ++ r = "." ++ r') : r = r' := by
  have := congrArg String.toList h
  rw [toList_dot, toList_dot] at this
  exact String.toList_inj.1 (List.cons.inj this).2

/-! ## 2. Cutting -/

theorem segments_ne_nil (text : String) : segments text ≠ [] := by
  unfold segments
  simpa using Text.pieces_ne_nil text.toList

/-- A text without dots is one key. -/
theorem segments_of_not_mem {key : String} (h : '.' ∉ key.toList) : segments key = [key] := by
  rw [segments, Text.pieces_of_not_mem h, List.map_singleton, String.ofList_toList]

/-- **A text is cut at any of its dots**: what stands before it is cut, and what stands behind. -/
theorem segments_append_dot (text rest : String) :
    segments (text ++ "." ++ rest) = segments text ++ segments rest := by
  have hl : (text ++ "." ++ rest).toList = text.toList ++ '.' :: rest.toList := by
    rw [String.toList_append, String.toList_append, List.append_assoc]
    rfl
  rw [segments, hl, Text.pieces_append, List.map_append]
  rfl

/-- A key without dots is cut off at the dot behind it. -/
theorem segments_dot {key : String} (h : '.' ∉ key.toList) (rest : String) :
    segments (key ++ "." ++ rest) = key :: segments rest := by
  rw [segments_append_dot, segments_of_not_mem h, List.singleton_append]

/-! ## 3. Joining -/

theorem join_singleton (key : String) : join [key] = key := by
  simp [join, List.intercalate]

theorem join_cons_cons (key key' : String) (keys : List String) :
    join (key :: key' :: keys) = key ++ "." ++ join (key' :: keys) := by
  rw [← String.toList_inj]
  simp [join, List.intercalate]

/-- **Keys without dots are the segments of the text that joins them.** -/
theorem segments_join {keys : List String} (hne : keys ≠ []) (h : ∀ k ∈ keys, '.' ∉ k.toList) :
    segments (join keys) = keys := by
  induction keys with
  | nil => exact absurd rfl hne
  | cons key keys ih =>
    have hkey := h key List.mem_cons_self
    cases keys with
    | nil => rw [join_singleton, segments_of_not_mem hkey]
    | cons key' keys =>
      rw [join_cons_cons, segments_dot hkey,
        ih (List.cons_ne_nil _ _) fun k hk => h k (List.mem_cons_of_mem _ hk)]

/-- Paths of keys without dots are told apart by their texts. -/
theorem join_inj {keys keys' : List String} (hne : keys ≠ []) (hne' : keys' ≠ [])
    (h : ∀ k ∈ keys, '.' ∉ k.toList) (h' : ∀ k ∈ keys', '.' ∉ k.toList) :
    join keys = join keys' ↔ keys = keys' := by
  constructor
  · intro hjoin
    rw [← segments_join hne h, hjoin, segments_join hne' h']
  · rintro rfl
    rfl

/-- The text of a path starts with no character but a dot with which its first key does not start. -/
theorem head?_join_ne {key : String} {c : Char} (hdot : c ≠ '.') (h : key.toList.head? ≠ some c)
    (keys : List String) : (join (key :: keys)).toList.head? ≠ some c := by
  cases keys with
  | nil => rwa [join_singleton]
  | cons key' keys =>
    rw [join_cons_cons, String.toList_append, String.toList_append, List.append_assoc]
    cases hcs : key.toList with
    | nil =>
      intro hhead
      exact hdot (Option.some.inj hhead).symm
    | cons c' cs =>
      rw [hcs] at h
      exact h

/-- The text of a path starts as its first key does, where that key is not empty. -/
theorem head?_join {key : String} (hkey : key ≠ "") (keys : List String) :
    (join (key :: keys)).toList.head? = key.toList.head? := by
  cases keys with
  | nil => rw [join_singleton]
  | cons key' keys =>
    rw [join_cons_cons, String.toList_append, String.toList_append, List.append_assoc]
    cases hcs : key.toList with
    | nil => exact absurd (String.toList_eq_nil_iff.1 hcs) hkey
    | cons c cs => rfl

end Statechart.Dotted
