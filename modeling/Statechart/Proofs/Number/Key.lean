import Statechart.Graph.Event
import Statechart.Proofs.Number.Literal

/-!
# Literals as keys of delays

What is read off a key that is written as a numeric literal. Main statements: a run of digits for a
number that fits 64 bits is read as that number, and every other literal is read as a name.
-/

namespace Statechart

/-! ## 1. Blanks -/

namespace Numeral

/-- A digit is one of the ten characters for digits or a letter. -/
theorem toNat_of_digit? {base d : Nat} {c : Char} (h : digit? base c = some d) :
    (48 ≤ c.toNat ∧ c.toNat ≤ 57) ∨ (97 ≤ c.toNat ∧ c.toNat ≤ 122) ∨
      (65 ≤ c.toNat ∧ c.toNat ≤ 90) := by
  by_cases hdigit : c.isDigit = true
  · exact .inl (Char.isDigit_iff_toNat.1 hdigit)
  by_cases hlower : ('a' ≤ c && c ≤ 'z') = true
  · rw [Bool.and_eq_true, decide_eq_true_eq, decide_eq_true_eq] at hlower
    exact .inr (.inl ⟨UInt32.le_iff_toNat_le.1 hlower.1, UInt32.le_iff_toNat_le.1 hlower.2⟩)
  by_cases hupper : ('A' ≤ c && c ≤ 'Z') = true
  · rw [Bool.and_eq_true, decide_eq_true_eq, decide_eq_true_eq] at hupper
    exact .inr (.inr ⟨UInt32.le_iff_toNat_le.1 hupper.1, UInt32.le_iff_toNat_le.1 hupper.2⟩)
  rw [digit?, if_neg hdigit, if_neg hlower, if_neg hupper] at h
  simp at h

/-- No character of a literal is blank. -/
theorem not_isBlank_of_digit? {base d : Nat} {c : Char} (h : digit? base c = some d) :
    Text.isBlank c = false := by
  have hchar := toNat_of_digit? h
  simp only [Text.isBlank, Text.blankRanges, List.any_cons, List.any_nil, Bool.or_false,
    Bool.or_eq_false_iff, Bool.and_eq_false_iff, decide_eq_false_iff_not]
  omega

/-- There are no blanks in the text. -/
def Unbroken (cs : List Char) : Prop := ∀ c ∈ cs, Text.isBlank c = false

theorem Unbroken.append {cs ds : List Char} (hcs : Unbroken cs) (hds : Unbroken ds) :
    Unbroken (cs ++ ds) :=
  List.forall_mem_append.2 ⟨hcs, hds⟩

theorem Unbroken.cons {c : Char} {cs : List Char} (hc : Text.isBlank c = false)
    (hcs : Unbroken cs) : Unbroken (c :: cs) :=
  List.forall_mem_cons.2 ⟨hc, hcs⟩

theorem Unbroken.trim_eq {cs : List Char} (h : Unbroken cs) : Text.trim cs = cs := by
  have hkeep : ∀ {ds : List Char}, Unbroken ds → ds.dropWhile Text.isBlank = ds := by
    intro ds hds
    cases ds with
    | nil => rfl
    | cons d ds => exact List.dropWhile_cons_of_neg (by simp [hds d List.mem_cons_self])
  have hreverse : Unbroken cs.reverse := fun c hc => h c (List.mem_reverse.1 hc)
  rw [Text.trim, hkeep h, hkeep hreverse, List.reverse_reverse]

theorem DigitsText.unbroken {base : Nat} {ds : List Nat} {cs : List Char}
    (h : DigitsText base ds cs) : Unbroken cs := by
  induction h with
  | last hd => exact .cons (not_isBlank_of_digit? hd) (List.forall_mem_nil _)
  | more hd _ ih => exact .cons (not_isBlank_of_digit? hd) ih
  | separated hd _ ih => exact .cons (not_isBlank_of_digit? hd) (.cons (by decide) ih)

theorem WholeText.unbroken {ds : List Nat} {cs : List Char} (h : WholeText ds cs) :
    Unbroken cs := by
  cases h with
  | zero => exact .cons (by decide) (List.forall_mem_nil _)
  | digits h _ => exact h.unbroken

theorem FractionText.unbroken {ds : List Nat} {cs : List Char} (h : FractionText ds cs) :
    Unbroken cs := by
  cases h with
  | missing => exact List.forall_mem_nil _
  | point => exact .cons (by decide) (List.forall_mem_nil _)
  | digits h => exact .cons (by decide) h.unbroken

theorem ExponentText.unbroken {e : Int} {cs : List Char} (h : ExponentText e cs) :
    Unbroken cs := by
  have hmarks : Unbroken ['e', 'E'] := .cons (by decide) (.cons (by decide) (List.forall_mem_nil _))
  have hsigns : ∀ plus ∈ [[], ['+']], Unbroken plus :=
    List.forall_mem_cons.2 ⟨List.forall_mem_nil _,
      List.forall_mem_singleton.2 (.cons (by decide) (List.forall_mem_nil _))⟩
  cases h with
  | missing => exact List.forall_mem_nil _
  | positive hmark hplus h =>
    exact .cons (hmarks _ hmark) (Unbroken.append (hsigns _ hplus) h.unbroken)
  | negative hmark h => exact .cons (hmarks _ hmark) (.cons (by decide) h.unbroken)

theorem LiteralText.unbroken {v : NumericValue} {cs : List Char} (h : LiteralText v cs) :
    Unbroken cs := by
  have hmarks : ∀ m ∈ marks, Text.isBlank m.1 = false := by decide
  have hend : Unbroken ['n'] := .cons (by decide) (List.forall_mem_nil _)
  cases h with
  | decimal hw hf he => exact (hw.unbroken.append hf.unbroken).append he.unbroken
  | pointed hf he => exact .cons (by decide) (hf.unbroken.append he.unbroken)
  | marked hmark h => exact .cons (by decide) (.cons (hmarks _ hmark) h.unbroken)
  | big h => exact h.unbroken.append hend
  | bigMarked hmark h =>
    exact .cons (by decide) (.cons (hmarks _ hmark) (h.unbroken.append hend))

/-! ## 2. Runs of digits -/

/-- The literal is a run of decimal digits for the number, which fits 64 bits. -/
structure Counts (v : NumericValue) (cs : List Char) (count : Nat) : Prop where
  value_eq : v = .number (.ofNat count)
  digits : ∀ c ∈ cs, c.isDigit = true
  fits : fitsWord count = true

/-- A literal of decimal digits only denotes the number of its digits. -/
theorem LiteralText.natural?_of_isDigit {v : NumericValue} {cs : List Char} (h : LiteralText v cs)
    (hdigits : ∀ c ∈ cs, c.isDigit = true) :
    ∃ n, natural? 10 cs = some n ∧ v = .number (.ofNat n) := by
  have hmem {c : Char} (hc : c.isDigit = false) : c ∉ cs := by
    intro hmem
    rw [hdigits c hmem] at hc
    cases hc
  have hmarks : ∀ m ∈ marks, m.1.isDigit = false := by decide
  have hseparator : '_' ∉ cs := hmem rfl
  cases h with
  | @decimal ws fs e whole fraction exponent hw hf he =>
    rw [List.mem_append, List.mem_append, not_or, not_or] at hseparator
    obtain ⟨rfl, rfl⟩ : fraction = [] ∧ fs = [] := by
      rcases hf.exists_point hseparator.1.2 with hmissing | ⟨digits, rfl, -⟩
      · exact hmissing
      · exact absurd (by simp) (hmem (c := '.') rfl)
    obtain ⟨rfl, rfl⟩ : exponent = [] ∧ e = 0 := by
      rcases he.exists_mark hseparator.2 with hmissing | ⟨mark, after, rfl, hmark, -⟩
      · exact hmissing
      · have hletter : mark.isDigit = false := by
          rcases hmark with rfl | rfl
          · rfl
          · rfl
        exact absurd (by simp) (hmem hletter)
    have hread := natural?_of_areDigits hw.ne_nil (hw.areDigits hseparator.1.1)
    refine ⟨ofDigits 10 ws, by rw [List.append_nil, List.append_nil, hread], ?_⟩
    rw [decimalRatio, List.append_nil]
    simp [Ratio.scale, Ratio.ofNat]
  | pointed _ _ => exact absurd List.mem_cons_self (hmem rfl)
  | marked hmark _ =>
    exact absurd (List.mem_cons_of_mem _ List.mem_cons_self) (hmem (hmarks _ hmark))
  | big _ => exact absurd (by simp) (hmem (c := 'n') rfl)
  | bigMarked hmark _ =>
    exact absurd (List.mem_cons_of_mem _ List.mem_cons_self) (hmem (hmarks _ hmark))

end Numeral

/-! ## 3. Keys -/

namespace Delay

open Numeral (LiteralText Counts natural?)

variable {v : NumericValue} {cs : List Char}

/-- What is read of a key without blanks and without a sign. -/
theorem ofKey_literal (h : LiteralText v cs) :
    ofKey (String.ofList cs) =
      match natural? 10 cs with
      | some n => if Numeral.fitsWord n then millis n else named (String.ofList cs)
      | none => named (String.ofList cs) := by
  obtain ⟨c, rest, rfl, hc⟩ := h.exists_cons
  have hplus : c ≠ '+' := by
    rintro rfl
    simp at hc
  cases hn : natural? 10 (c :: rest) <;> simp [ofKey, h.unbroken.trim_eq, hplus, hn]

/-- **A literal that counts is read as its number.** -/
theorem ofKey_of_counts (h : LiteralText v cs) {count : Nat} (hcount : Counts v cs count) :
    ofKey (String.ofList cs) = .millis count := by
  obtain ⟨n, hn, hv⟩ := h.natural?_of_isDigit hcount.digits
  obtain rfl : n = count := by
    have hvalue := hv.symm.trans hcount.value_eq
    simpa [Ratio.ofNat] using hvalue
  rw [ofKey_literal h, hn]
  exact if_pos hcount.fits

/-- **Any other literal is read as a name.** -/
theorem ofKey_of_not_counts (h : LiteralText v cs) (hcount : ∀ count, ¬ Counts v cs count) :
    ofKey (String.ofList cs) = .named (String.ofList cs) := by
  rw [ofKey_literal h]
  split
  · next n hn =>
    have hdigits : ∀ c ∈ cs, c.isDigit = true := fun c hc =>
      Numeral.exists_digit?_ten.1 (Numeral.digit?_of_natural? hn c hc)
    obtain ⟨n', hn', hv⟩ := h.natural?_of_isDigit hdigits
    obtain rfl := Option.some.inj (hn.symm.trans hn')
    exact if_neg fun hfits => hcount n ⟨hv, hdigits, hfits⟩
  · rfl

/-- What is read as a name is the name. -/
theorem eq_of_ofKey {key name : String} (h : ofKey key = .named name) : name = key := by
  unfold ofKey at h
  simp only at h
  split at h
  · split at h
    · cases h
    · exact (Delay.named.inj h).symm
  · exact (Delay.named.inj h).symm

end Delay

end Statechart
