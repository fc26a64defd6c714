import Statechart.Expression
import Statechart.Proofs.Fields

/-!
# Objects and arrays written out

Objects of entries with given keys, of which some may be left out, and how deep objects, arrays and
calls stand inside one another.
-/

namespace Statechart.Expression

/-! ## 1. Objects and arrays -/

/-- An object of some entries. -/
def record (m : Assoc Expression) : Expression := .object (m.map fun (key, e) => .keyed key e)

/-- An object of the fields that hold something. -/
def ofFields (fields : Assoc (Option Expression)) : Expression := record (Assoc.present fields)

/-- An array, unless it is empty. -/
def array? (items : List Expression) : Option Expression :=
  if items.isEmpty then none else some (.array items)

/-- An object of some entries, unless there are none. -/
def record? (m : Assoc Expression) : Option Expression :=
  if m.isEmpty then none else some (.record m)

/-! ## 2. Nesting -/

mutual

/-- How many objects, arrays and calls stand inside one another. -/
def nesting : Expression → Nat
  | object entries => 1 + nestingOfEntries entries
  | array items => 1 + nestingOfItems items
  | call callee args => 1 + max callee.nesting (nestingOfItems args)
  | member inner _ => inner.nesting
  | string _ | number _ | bool _ | undefined | null | function | name _ | other _ => 0

def nestingOfItems : List Expression → Nat
  | [] => 0
  | e :: rest => max e.nesting (nestingOfItems rest)

def nestingOfEntries : List Entry → Nat
  | [] => 0
  | entry :: rest => max (nestingOfEntry entry) (nestingOfEntries rest)

def nestingOfEntry : Entry → Nat
  | .keyed _ e | .computed e | .spread e => e.nesting

end

theorem nesting_le_of_mem {items : List Expression} {e : Expression} (h : e ∈ items) :
    e.nesting ≤ nestingOfItems items := by
  induction items with
  | nil => cases h
  | cons e' rest ih =>
    rw [nestingOfItems]
    rcases List.mem_cons.1 h with rfl | h
    · omega
    · have := ih h
      omega

theorem nesting_le_of_mem_record {m : Assoc Expression} {key : String} {e : Expression}
    (h : (key, e) ∈ m) : e.nesting ≤ nestingOfEntries (m.map fun (key, e) => .keyed key e) := by
  induction m with
  | nil => cases h
  | cons entry rest ih =>
    obtain ⟨key', e'⟩ := entry
    rw [List.map_cons, nestingOfEntries, nestingOfEntry]
    rcases List.mem_cons.1 h with h | h
    · obtain ⟨rfl, rfl⟩ := Prod.mk.inj h
      omega
    · have := ih h
      omega

/-- What is nested less than `levels` deep and is an array leaves two levels for its items. -/
theorem exists_levels_array {items : List Expression} {levels : Nat}
    (h : (array items).nesting < levels) :
    ∃ n, levels = n + 2 ∧ ∀ e ∈ items, e.nesting < n + 1 := by
  rw [nesting] at h
  refine ⟨levels - 2, by omega, fun e he => ?_⟩
  have := nesting_le_of_mem he
  omega

theorem exists_levels_record {m : Assoc Expression} {levels : Nat}
    (h : (record m).nesting < levels) :
    ∃ n, levels = n + 2 ∧ ∀ key e, (key, e) ∈ m → e.nesting < n + 1 := by
  rw [record, nesting] at h
  refine ⟨levels - 2, by omega, fun key e he => ?_⟩
  have := nesting_le_of_mem_record he
  omega

theorem exists_levels_ofFields {fields : Assoc (Option Expression)} {levels : Nat}
    (h : (ofFields fields).nesting < levels) :
    ∃ n, levels = n + 2 ∧ ∀ key e, (fields.lookup key).join = some e → e.nesting < n + 1 := by
  obtain ⟨n, rfl, hn⟩ := exists_levels_record h
  refine ⟨n, rfl, fun key e he => hn key e (Assoc.mem_present.2 ?_)⟩
  exact Assoc.mem_of_lookup (Option.join_eq_some_iff.1 he)

end Statechart.Expression
