/-!
# Code points

The character of a code point. Surrogates have none, nor have numbers beyond the last plane.
-/

namespace Statechart.Text

/-- The character of a code point, where there is one. -/
def char? (code : Nat) : Option Char :=
  if h : code.isValidChar then some (Char.ofNatAux code h) else none

theorem char?_toNat (c : Char) : char? c.toNat = some c := by
  have h : c.toNat.isValidChar := c.valid
  exact (dif_pos h).trans (congrArg some (Char.ext rfl))

theorem toNat_of_char? {code : Nat} {c : Char} (h : char? code = some c) : code = c.toNat := by
  by_cases hvalid : code.isValidChar
  · rw [char?, dif_pos hvalid] at h
    obtain rfl := Option.some.inj h
    rfl
  · rw [char?, dif_neg hvalid] at h
    cases h

/-- Only surrogates and what lies beyond the last plane have no character. -/
theorem char?_eq_none_iff {code : Nat} :
    char? code = none ↔ (0xD800 ≤ code ∧ code < 0xE000) ∨ 0x110000 ≤ code := by
  by_cases h : code.isValidChar
  · have hvalid : code < 0xD800 ∨ 0xDFFF < code ∧ code < 0x110000 := h
    rw [char?, dif_pos h]
    exact iff_of_false nofun (by omega)
  · have hvalid : ¬ (code < 0xD800 ∨ 0xDFFF < code ∧ code < 0x110000) := h
    rw [char?, dif_neg h]
    exact iff_of_true rfl (by omega)

end Statechart.Text
