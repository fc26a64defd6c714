import Statechart.Assoc

/-!
# Fields that may be left out

Of a list of fields, some have something to hold. Those that have are a keyed list.
-/

namespace Statechart.Assoc

variable {α β : Type}

/-- The fields that hold something. -/
def present (fields : Assoc (Option α)) : Assoc α :=
  fields.filterMap fun (key, o) => o.map (key, ·)

@[simp] theorem present_nil : present ([] : Assoc (Option α)) = [] := rfl

@[simp] theorem present_none (key : String) (fields : Assoc (Option α)) :
    present ((key, none) :: fields) = present fields := rfl

@[simp] theorem present_some (key : String) (a : α) (fields : Assoc (Option α)) :
    present ((key, some a) :: fields) = (key, a) :: present fields := rfl

theorem mem_present {fields : Assoc (Option α)} {key : String} {a : α} :
    (key, a) ∈ present fields ↔ (key, some a) ∈ fields := by
  induction fields with
  | nil => simp
  | cons field rest ih =>
    obtain ⟨key', o⟩ := field
    cases o with
    | none => simp [ih]
    | some a' => simp [ih]

theorem keys_present_sublist (fields : Assoc (Option α)) :
    (keys (present fields)).Sublist (keys fields) := by
  induction fields with
  | nil => exact List.Sublist.refl _
  | cons field rest ih =>
    obtain ⟨key, o⟩ := field
    cases o with
    | none => exact ih.cons key
    | some a => exact ih.cons_cons key

/-- Fields with distinct keys still have them when some are left out. -/
theorem Distinct.present {fields : Assoc (Option α)} (h : Distinct fields) :
    Distinct (present fields) :=
  List.Nodup.sublist (keys_present_sublist fields) h

/-- **Looking a field up finds what it holds.** -/
theorem Distinct.lookup_present {fields : Assoc (Option α)} (h : Distinct fields) (key : String) :
    (Assoc.present fields).lookup key = (fields.lookup key).join := by
  induction fields with
  | nil => rfl
  | cons field rest ih =>
    obtain ⟨key', o⟩ := field
    have hrest : Distinct rest := (List.nodup_cons.1 h).2
    rw [List.lookup_cons]
    by_cases hk : key = key'
    · subst hk
      simp only [beq_self_eq_true, Option.join_some]
      cases o with
      | none =>
        -- the key is not among those of the later fields
        rw [present_none, ih hrest]
        have hkey : key ∉ keys rest := (List.nodup_cons.1 h).1
        rw [List.lookup_eq_none_iff.2 fun p hp => ?_]
        · rfl
        · have : key ≠ p.1 := fun e => hkey (e ▸ List.mem_map_of_mem hp)
          simpa using this
      | some a => rw [present_some, List.lookup_cons, beq_self_eq_true]
    · have hk' : (key == key') = false := by simpa using hk
      simp only [hk']
      rw [← ih hrest]
      cases o with
      | none => rfl
      | some a => rw [present_some, List.lookup_cons, hk']

end Statechart.Assoc
