import Mathlib.Algebra.Group.Nat.Defs
import Mathlib.Data.Nat.Basic
import Statechart.Number.Numeral

/-!
# Numbers that round to zero

A ratio rounds to zero if it is no more than half of the smallest unit. Main statement: a decimal
numeral is read to zero exactly if the ratio that it denotes rounds to zero, although numerals far
outside the finite magnitudes are settled without that ratio.
-/

namespace Statechart

/-! ## 1. Ratios -/

namespace Ratio

variable {r : Ratio}

theorem round_eq_zero_iff (hden : 0 < r.den) : r.round = 0 ↔ 2 * r.num ≤ r.den := by
  have hdiv := Nat.div_add_mod r.num r.den
  have hmod := Nat.mod_lt r.num hden
  have hfloor : r.floor = 0 ↔ r.num < r.den := Nat.div_eq_zero_iff_lt hden
  unfold round
  by_cases hless : r.num < r.den
  · have hrest : r.num % r.den = r.num := Nat.mod_eq_of_lt hless
    rw [hrest, hfloor.2 hless]
    grind
  · have hpos : r.floor ≠ 0 := fun h => hless (hfloor.1 h)
    grind

theorem round_scale_eq_zero_iff {k : Nat} (hden : 0 < r.den) :
    (r.scale 2 k).round = 0 ↔ r.num * 2 ^ (k + 1) ≤ r.den := by
  have hscale : r.scale 2 k = ⟨r.num * 2 ^ k, r.den⟩ := if_pos (Int.natCast_nonneg k)
  have hhalf : 2 * (r.num * 2 ^ k) = r.num * 2 ^ (k + 1) := by
    rw [Nat.pow_succ, Nat.mul_left_comm, Nat.mul_comm 2]
  rw [hscale, round_eq_zero_iff (show 0 < (Ratio.mk (r.num * 2 ^ k) r.den).den from hden), hhalf]

/-- The leading bit of a ratio lies as far behind the point as the denominator is larger. -/
theorem leadingBit_le {k : Nat} (hnum : r.num ≠ 0) (h : r.num * 2 ^ k ≤ r.den) :
    r.leadingBit ≤ -k := by
  have hpow : 2 ^ (r.num.log2 + k) ≤ r.den := by
    calc 2 ^ (r.num.log2 + k) = 2 ^ r.num.log2 * 2 ^ k := Nat.pow_add ..
      _ ≤ r.num * 2 ^ k := Nat.mul_le_mul_right _ (Nat.log2_self_le hnum)
      _ ≤ r.den := h
  have hden : r.den ≠ 0 := by
    have hpos := Nat.two_pow_pos (r.num.log2 + k)
    omega
  have hlog : r.num.log2 + k ≤ r.den.log2 := (Nat.le_log2 hden).2 hpow
  simp only [leadingBit]
  split
  · omega
  · omega

end Ratio

/-! ## 2. Rounding -/

namespace Binary64

/-- The number of times that one is halved to get half of the smallest unit. -/
def halvings : Nat := 1075

theorem ofRatio_pos_unit {r : Ratio} {unit : Int} (h : smallestUnit < unit) :
    min infinity ((unit - smallestUnit).toNat * fractions + (r.scale 2 (-unit)).round) ≠ 0 := by
  have hplaces : 1 ≤ (unit - smallestUnit).toNat := by omega
  have hlarge : 1 * fractions ≤ (unit - smallestUnit).toNat * fractions :=
    Nat.mul_le_mul_right _ hplaces
  simp only [infinity, fractions] at hlarge ⊢
  omega

/-- **A ratio rounds to zero if it is no more than half of the smallest unit.** -/
theorem ofRatio_eq_zero_iff {r : Ratio} (hden : 0 < r.den) :
    ofRatio r = 0 ↔ r.num * 2 ^ halvings ≤ r.den := by
  unfold ofRatio
  by_cases hnum : r.num = 0
  · rw [if_pos hnum, hnum, Nat.zero_mul]
    exact iff_of_true rfl (Nat.zero_le _)
  rw [if_neg hnum]
  by_cases hunit : r.leadingBit - 52 ≤ smallestUnit
  · -- the ratio is rounded to a multiple of the smallest unit
    obtain ⟨k, hk, hunits⟩ : ∃ k : Nat, halvings = k + 1 ∧ -smallestUnit = k := ⟨1074, rfl, rfl⟩
    rw [hk, ← Ratio.round_scale_eq_zero_iff hden, ← hunits]
    simp only [Int.max_eq_right hunit, Int.sub_self, Int.toNat_zero, Nat.zero_mul, Nat.zero_add]
    simp only [infinity]
    omega
  · -- there is a bit above the smallest unit
    have hmax : max (r.leadingBit - 52) smallestUnit = r.leadingBit - 52 :=
      Int.max_eq_left (by omega)
    have hlarge : ¬ r.num * 2 ^ halvings ≤ r.den := by
      intro hsmall
      have hplace := Ratio.leadingBit_le hnum hsmall
      simp only [halvings, smallestUnit] at hplace hunit
      omega
    simp only [hmax]
    exact iff_of_false (ofRatio_pos_unit (by omega)) hlarge

theorem ofRatio_le_infinity (r : Ratio) : ofRatio r ≤ infinity := by
  unfold ofRatio
  split
  · exact Nat.zero_le _
  · exact Nat.min_le_left _ _

end Binary64

/-! ## 3. Decimal numerals -/

namespace Numeral.Decimal

/-- A number times a power of ten, as a ratio. -/
theorem scale_ofNat (n : Nat) (s : Int) :
    (Ratio.ofNat n).scale 10 s = ⟨n * 10 ^ s.toNat, 10 ^ (-s).toNat⟩ := by
  unfold Ratio.scale
  by_cases hs : 0 ≤ s
  · have hnone : (-s).toNat = 0 := by omega
    rw [if_pos hs, hnone]
    rfl
  · have hnone : s.toNat = 0 := by omega
    rw [if_neg hs, hnone, Nat.pow_zero, Nat.mul_one]
    simp [Ratio.ofNat]

theorem lt_pow_length (n : Nat) : n < 10 ^ (Nat.toDigits 10 n).length :=
  (Nat.length_toDigits_le_iff (by decide) Nat.length_toDigits_pos).1 le_rfl

theorem pow_length_le {n : Nat} (h : n ≠ 0) : 10 ^ ((Nat.toDigits 10 n).length - 1) ≤ n := by
  by_cases hone : (Nat.toDigits 10 n).length - 1 = 0
  · rw [hone]
    omega
  · have hshort : ¬ (Nat.toDigits 10 n).length ≤ (Nat.toDigits 10 n).length - 1 := by omega
    rw [Nat.length_toDigits_le_iff (by decide) (by omega)] at hshort
    omega

/-- A number whose leading digit is far behind the point rounds to zero. -/
theorem ofRatio_of_small {n : Nat} {s : Int}
    (h : s + (Nat.toDigits 10 n).length < -330) :
    Binary64.ofRatio ((Ratio.ofNat n).scale 10 s) = 0 := by
  have hwhole : s.toNat = 0 := by omega
  obtain ⟨k, hk⟩ : ∃ k, (-s).toNat = (Nat.toDigits 10 n).length + 331 + k :=
    ⟨(-s).toNat - ((Nat.toDigits 10 n).length + 331), by omega⟩
  rw [scale_ofNat, Binary64.ofRatio_eq_zero_iff (Nat.pow_pos (by decide)), hwhole, hk]
  simp only [Nat.pow_zero, Nat.mul_one]
  calc n * 2 ^ Binary64.halvings ≤ 10 ^ (Nat.toDigits 10 n).length * 10 ^ 331 :=
        Nat.mul_le_mul (Nat.le_of_lt (lt_pow_length n)) (by decide +kernel)
    _ = 10 ^ ((Nat.toDigits 10 n).length + 331) := (Nat.pow_add ..).symm
    _ ≤ 10 ^ ((Nat.toDigits 10 n).length + 331 + k) :=
        Nat.pow_le_pow_right (by decide) (Nat.le_add_right _ _)

/-- A number whose leading digit is before the point does not round to zero. -/
theorem ofRatio_of_large {n : Nat} {s : Int} (hn : n ≠ 0)
    (h : 0 < s + (Nat.toDigits 10 n).length) :
    Binary64.ofRatio ((Ratio.ofNat n).scale 10 s) ≠ 0 := by
  rw [scale_ofNat, Ne, Binary64.ofRatio_eq_zero_iff (Nat.pow_pos (by decide)), Nat.not_le]
  have hhalves : 2 ≤ 2 ^ Binary64.halvings := by decide +kernel
  have hden : 10 ^ (-s).toNat ≤ n := by
    refine le_trans (Nat.pow_le_pow_right (by decide) ?_) (pow_length_le hn)
    omega
  have hnum : n * 1 ≤ n * 10 ^ s.toNat := Nat.mul_le_mul_left _ (Nat.pow_pos (by decide))
  calc 10 ^ (-s).toNat ≤ n := hden
    _ < n * 2 := by omega
    _ ≤ n * 10 ^ s.toNat * 2 ^ Binary64.halvings := Nat.mul_le_mul (by omega) hhalves

/-- **A decimal numeral is read to zero exactly if its ratio rounds to zero.** -/
theorem magnitude_eq_zero_iff (d : Decimal) :
    d.magnitude = 0 ↔ Binary64.ofRatio ((Ratio.ofNat d.digits).scale 10 d.scale) = 0 := by
  unfold magnitude
  by_cases hdigits : d.digits = 0
  · have hzero : Binary64.ofRatio ((Ratio.ofNat d.digits).scale 10 d.scale) = 0 := by
      rw [hdigits, scale_ofNat, Nat.zero_mul]
      exact if_pos rfl
    rw [if_pos hdigits]
    exact iff_of_true rfl hzero
  rw [if_neg hdigits]
  simp only
  split
  · have hlarge := ofRatio_of_large hdigits (s := d.scale) (by omega)
    exact iff_of_false (by decide) hlarge
  · split
    · exact iff_of_true rfl (ofRatio_of_small (by omega))
    · rfl

end Numeral.Decimal

end Statechart
