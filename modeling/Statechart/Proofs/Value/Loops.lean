import Statechart.Value.Definition

/-!
# Readers as loops

The readers that call one another go through arrays and entries by themselves. Main statements: they
do so as all other readers do, item by item and entry by entry; and whatever holds of a value if it
holds of what stands right inside it holds of every value.
-/

namespace Statechart.Value

/-! ## 1. Parts -/

/-- The first value stands right inside the second. -/
inductive PartOf : Value → Value → Prop
  | entry {entries : List (String × Value)} {key : String} {v : Value} (h : (key, v) ∈ entries) :
      PartOf v (.object entries)
  | item {items : List Value} {v : Value} (h : v ∈ items) : PartOf v (.array items)

theorem PartOf.sizeOf_lt {v w : Value} (h : v.PartOf w) : sizeOf v < sizeOf w := by
  cases h with
  | @entry entries key _ h =>
    have hentry := List.sizeOf_lt_of_mem h
    simp only [Prod.mk.sizeOf_spec, object.sizeOf_spec] at hentry ⊢
    omega
  | @item items _ h =>
    have hitem := List.sizeOf_lt_of_mem h
    simp only [array.sizeOf_spec]
    omega

/-- **Induction on what stands right inside a value.** -/
theorem induction_on_parts {motive : Value → Prop}
    (step : ∀ v, (∀ w, w.PartOf v → motive w) → motive v) (v : Value) : motive v := by
  induction hn : sizeOf v using Nat.strongRecOn generalizing v with
  | _ n ih =>
    subst hn
    exact step v fun w hw => ih (sizeOf w) hw.sizeOf_lt w rfl

/-! ## 2. Actions and branches -/

/-- Branches and actions are read one by one as the items of any list. -/
theorem readBranchItems_eq (index : Nat) (items : List Value) :
    readBranchItems index items = readItems readBranch index items := by
  induction items generalizing index with
  | nil => rfl
  | cons v rest ih => rw [readBranchItems, readItems, ih]

theorem readActionItems_eq (index : Nat) (items : List Value) :
    readActionItems index items = readItems readAction index items := by
  induction items generalizing index with
  | nil => rfl
  | cons v rest ih => rw [readActionItems, readItems, ih]

theorem readBranches_eq (v : Value) : readBranches v = readEach readBranch v := by
  cases v with
  | array items => exact readBranchItems_eq 0 items
  | _ => rfl

theorem readActions_eq (v : Value) : readActions v = readEach readAction v := by
  cases v with
  | array items => exact readActionItems_eq 0 items
  | _ => rfl

theorem readBranchesIn_eq (entries : Assoc Value) :
    readBranchesIn entries =
      match entries.lookup "conds" with
      | some v => inside "conds" (readBranches v)
      | none => .ok [] := by
  induction entries with
  | nil => rfl
  | cons entry rest ih =>
    obtain ⟨key, v⟩ := entry
    rw [readBranchesIn, List.lookup_cons]
    by_cases hkey : key = "conds"
    · subst hkey
      rfl
    · have hne : ("conds" == key) = false := by simpa using Ne.symm hkey
      rw [if_neg hkey, hne, ih]

theorem readActionsIn_eq (entries : Assoc Value) :
    readActionsIn entries =
      match entries.lookup "actions" with
      | some v => inside "actions" (readActions v)
      | none => .ok [] := by
  induction entries with
  | nil => rfl
  | cons entry rest ih =>
    obtain ⟨key, v⟩ := entry
    rw [readActionsIn, List.lookup_cons]
    by_cases hkey : key = "actions"
    · subst hkey
      rfl
    · have hne : ("actions" == key) = false := by simpa using Ne.symm hkey
      rw [if_neg hkey, hne, ih]

/-! ## 3. States -/

/-- One entry of a state, whether it is that of the states below or another one. -/
def readTreeEntry (t : StateTree) (key : String) (v : Value) : Read StateTree :=
  if key = "states" then (readChildren v).map (.state t.decl)
  else (readStateEntry t.decl key v).map (.state · t.children)

theorem readTreeEntries_eq (t : StateTree) (entries : List (String × Value)) :
    readTreeEntries t entries =
      entries.foldlM (fun t entry => inside entry.1 (readTreeEntry t entry.1 entry.2)) t := by
  induction entries generalizing t with
  | nil => rfl
  | cons entry rest ih =>
    obtain ⟨key, v⟩ := entry
    rw [readTreeEntries, List.foldlM_cons, readTreeEntry]
    simp only [ih]
    split
    · cases readChildren v <;> rfl
    · cases readStateEntry t.decl key v <;> rfl

theorem readChildEntries_eq (entries : List (String × Value)) :
    readChildEntries entries =
      entries.mapM fun entry => (inside entry.1 (readTree entry.2)).map (entry.1, ·) := by
  induction entries with
  | nil => rfl
  | cons entry rest ih =>
    obtain ⟨key, v⟩ := entry
    rw [readChildEntries, List.mapM_cons, ih]
    cases readTree v <;> rfl

end Statechart.Value
