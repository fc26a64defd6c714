import Statechart.Proofs.Shape.Accepted

/-!
# Induction on shapes and levels

Alternatives and shapes that may be left out are read on the level of their parts, objects and
arrays on the level above. A rule is read on the level of the shape that it stands for, which is not
smaller; but rules occur there only inside objects and arrays. Main statement: so whatever holds of
each kind of shape, if it holds of the parts on their levels, holds of all shapes on all levels.
-/

namespace Statechart.Shape

/-! ## 1. Plain data -/

/-- The shapes of plain data, which have no levels below. -/
def Plain (s : Shape) : Prop :=
  s = .bool ∨ s = .number ∨ s = .undefined ∨ s = .function ∨ ∃ allowed, s = .string allowed

/-- Plain data are read alike whatever the reader. -/
theorem readResolved_plain {s : Shape} {below below' : Reader} {cx cx' : Context} (hs : Plain s)
    (x : Expression) : readResolved below' cx' s x = readResolved below cx s x := by
  rcases hs with rfl | rfl | rfl | rfl | ⟨allowed, rfl⟩
  · cases x <;> rfl
  · cases x <;> rfl
  · cases x <;> rfl
  · cases x <;> rfl
  · cases allowed <;> cases x <;> rfl

theorem Plain.direct {s : Shape} (hs : Plain s) : s.Direct := by
  rcases hs with rfl | rfl | rfl | rfl | ⟨allowed, rfl⟩ <;> trivial

/-! ## 2. Induction -/

/-- Induction on the shapes of one level. -/
theorem induction_on_level {motive : Shape → Prop} (plain : ∀ s, Plain s → motive s)
    (ignored : motive .ignored) (creatorCall : motive .creatorCall)
    (implementation : motive .implementation) (rule : ∀ r, motive (.rule r))
    (array : ∀ element, motive (.array element))
    (object : ∀ fields others, motive (.object fields others))
    (optional : ∀ inner, motive inner → motive (.optional inner))
    (oneOf : ∀ alternatives, (∀ s ∈ alternatives, motive s) → motive (.oneOf alternatives)) :
    (s : Shape) → motive s
  | .string allowed => plain _ (by simp [Plain])
  | .bool => plain _ (by simp [Plain])
  | .number => plain _ (by simp [Plain])
  | .undefined => plain _ (by simp [Plain])
  | .function => plain _ (by simp [Plain])
  | .ignored => ignored
  | .creatorCall => creatorCall
  | .implementation => implementation
  | .rule r => rule r
  | .array element => array element
  | .object fields others => object fields others
  | .optional inner => optional inner
      (induction_on_level plain ignored creatorCall implementation rule array object optional oneOf
        inner)
  | .oneOf alternatives => oneOf alternatives fun s hs =>
      have : sizeOf s < sizeOf alternatives := List.sizeOf_lt_of_mem hs
      induction_on_level plain ignored creatorCall implementation rule array object optional oneOf s

/-- **Induction on shapes and levels.** -/
@[elab_as_elim]
theorem level_induction {motive : Nat → Shape → Prop} (plain : ∀ n s, Plain s → motive n s)
    (ignored : ∀ n, motive n .ignored)
    (creatorCall : ∀ n, (∀ m < n, motive m (.rule .branches)) → motive n .creatorCall)
    (implementation : ∀ n, (∀ m < n, motive m (.rule .branches)) → motive n .implementation)
    (rule : ∀ n r, motive n (ofRule r) → motive n (.rule r))
    (array : ∀ n element, (∀ m < n, motive m element) → motive n (.array element))
    (object : ∀ n fields others, (∀ field ∈ fields, ∀ m < n, motive m field.2) →
      (∀ s, others = some s → ∀ m < n, motive m s) → motive n (.object fields others))
    (optional : ∀ n inner, motive n inner → motive n (.optional inner))
    (oneOf : ∀ n alternatives, (∀ s ∈ alternatives, motive n s) → motive n (.oneOf alternatives))
    (n : Nat) (s : Shape) : motive n s := by
  induction n using Nat.strongRecOn generalizing s with
  | _ n ih =>
    have hobject (fields : List (String × Shape)) (others : Option Shape) :
        motive n (.object fields others) :=
      object n fields others (fun field _ m hm => ih m hm field.2) fun s _ m hm => ih m hm s
    have hcreator : motive n .creatorCall := creatorCall n fun m hm => ih m hm _
    -- no rule is met on the level of a rule's own shape
    have hrule (r : Rule) : motive n (ofRule r) := by
      cases r with
      | state =>
        refine oneOf n _ ?_
        simp only [List.forall_mem_cons]
        exact ⟨hobject _ _, hobject _ _, hobject _ _, hobject _ _, hobject _ _,
          List.forall_mem_nil _⟩
      | action =>
        refine oneOf n _ ?_
        simp only [List.forall_mem_cons]
        exact ⟨plain n text (by simp [Plain, text]), plain n .function (by simp [Plain]),
          hobject _ _, hcreator, List.forall_mem_nil _⟩
      | branches => exact array n branch fun m hm => ih m hm branch
    exact induction_on_level (plain n) (ignored n) hcreator
      (implementation n fun m hm => ih m hm _) (fun r => rule n r (hrule r))
      (fun element => array n element fun m hm => ih m hm element) hobject (optional n) (oneOf n) s

end Statechart.Shape
