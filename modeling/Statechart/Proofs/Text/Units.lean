import Statechart.Text.CodePoint

/-!
# Code units

The UTF-16 code units of a text. Main statement: a text is determined by its code units.
-/

namespace Statechart.Text

/-- The code units of a code point; a surrogate is one unit. -/
def unitsOfCode (code : Nat) : List Nat :=
  if code < 0x10000 then [code]
  else [0xD800 + (code - 0x10000) / 0x400, 0xDC00 + (code - 0x10000) % 0x400]

/-- The code units of a text. -/
def utf16 (cs : List Char) : List Nat := cs.flatMap fun c => unitsOfCode c.toNat

theorem utf16_append (cs ds : List Char) : utf16 (cs ++ ds) = utf16 cs ++ utf16 ds :=
  List.flatMap_append

theorem utf16_singleton (c : Char) : utf16 [c] = unitsOfCode c.toNat :=
  List.append_nil _

theorem unitsOfCode_of_lt {code : Nat} (h : code < 0x10000) : unitsOfCode code = [code] :=
  if_pos h

theorem eq_of_unitsOfCode {code unit : Nat} (h : unitsOfCode code = [unit]) : code = unit := by
  unfold unitsOfCode at h
  split at h
  · exact (List.cons.inj h).1
  · cases (List.cons.inj h).2

theorem length_unitsOfCode_pos (code : Nat) : 0 < (unitsOfCode code).length := by
  unfold unitsOfCode
  split <;> simp

/-- No text has fewer units than characters. -/
theorem length_le_length_utf16 (cs : List Char) : cs.length ≤ (utf16 cs).length := by
  induction cs with
  | nil => exact Nat.le_refl _
  | cons c cs ih =>
    have hpos := length_unitsOfCode_pos c.toNat
    rw [utf16, List.flatMap_cons, List.length_append, List.length_cons, ← utf16]
    omega

/-- The first character can be told from the units of a text. -/
theorem unitsOfCode_append_inj {c d : Char} {us vs : List Nat}
    (h : unitsOfCode c.toNat ++ us = unitsOfCode d.toNat ++ vs) : c = d ∧ us = vs := by
  have hc : c.toNat < 0xD800 ∨ 0xDFFF < c.toNat ∧ c.toNat < 0x110000 := c.valid
  have hd : d.toNat < 0xD800 ∨ 0xDFFF < d.toNat ∧ d.toNat < 0x110000 := d.valid
  unfold unitsOfCode at h
  split at h <;> split at h
  · obtain ⟨hcode, rfl⟩ := List.cons.inj h
    exact ⟨Char.toNat_inj.1 hcode, rfl⟩
  · have hhead := (List.cons.inj h).1
    omega
  · have hhead := (List.cons.inj h).1
    omega
  · obtain ⟨hhigh, h⟩ := List.cons.inj h
    obtain ⟨hlow, rfl⟩ := List.cons.inj h
    exact ⟨Char.toNat_inj.1 (by omega), rfl⟩

/-- **A text is determined by its code units.** -/
theorem utf16_inj {cs ds : List Char} (h : utf16 cs = utf16 ds) : cs = ds := by
  induction cs generalizing ds with
  | nil =>
    have hlength := length_le_length_utf16 ds
    rw [← h] at hlength
    exact (List.length_eq_zero_iff.1 (Nat.le_zero.1 hlength)).symm
  | cons c cs ih =>
    cases ds with
    | nil =>
      have hlength := length_le_length_utf16 (c :: cs)
      rw [h] at hlength
      cases hlength
    | cons d ds =>
      obtain ⟨rfl, hrest⟩ := unitsOfCode_append_inj h
      rw [ih hrest]

end Statechart.Text
