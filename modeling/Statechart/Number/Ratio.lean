/-!
# Ratios

Exact quotients of natural numbers. A ratio can be multiplied by a power of a base, also by a
negative one, and rounded to a natural number. Nothing is reduced to lowest terms.
-/

namespace Statechart

/-- The quotient of two natural numbers, the second of them positive. -/
structure Ratio where
  num : Nat
  den : Nat
deriving DecidableEq, Repr

namespace Ratio

/-- A natural number as a ratio. -/
def ofNat (n : Nat) : Ratio := ⟨n, 1⟩

/-- The ratio times `base` to the power of `k`. -/
def scale (r : Ratio) (base : Nat) (k : Int) : Ratio :=
  if 0 ≤ k then ⟨r.num * Nat.pow base k.toNat, r.den⟩
  else ⟨r.num, r.den * Nat.pow base (-k).toNat⟩

/-- The whole part. -/
def floor (r : Ratio) : Nat := r.num / r.den

/-- The nearest natural number, from a half the even one. -/
def round (r : Ratio) : Nat :=
  let rest := 2 * (r.num % r.den)
  if rest < r.den then r.floor
  else if rest = r.den then r.floor + r.floor % 2
  else r.floor + 1

/-- Whether the ratio is less than one. -/
def isFraction (r : Ratio) : Bool := r.num < r.den

/-- The place of the leading binary digit of a positive ratio, counted from the point. It is the
difference of the places in numerator and denominator, or one less. -/
def leadingBit (r : Ratio) : Int :=
  let guess : Int := (r.num.log2 : Int) - (r.den.log2 : Int)
  if (r.scale 2 (-guess)).isFraction then guess - 1 else guess

end Ratio

end Statechart
