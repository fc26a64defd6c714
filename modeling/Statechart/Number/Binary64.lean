import Statechart.Number.Ratio

/-!
# Binary64 numbers

A number is kept as its sign and the 63 bits below the sign, read as a natural number. Up to
infinity these bits number the magnitudes in increasing order, so that rounding has only to find
the nearest one. All arithmetic is exact, on natural numbers.
-/

namespace Statechart

/-- A binary64 datum: its sign, and exponent and fraction as one number below the sign bit. -/
structure Binary64 where
  negative : Bool
  magnitude : Nat
deriving DecidableEq, Repr

namespace Binary64

/-! ## 1. Special magnitudes -/

/-- The value of the bit that holds the sign. -/
def signBit : Nat := 0x8000000000000000

/-- The number of fractions that belong to one exponent. -/
def fractions : Nat := 0x10000000000000

/-- The magnitude of infinity. -/
def infinity : Nat := 0x7FF0000000000000

/-- The magnitude that stands for no number. -/
def notANumber : Nat := 0x7FF8000000000000

/-- Whether the datum is neither infinite nor no number at all. -/
def isFinite (x : Binary64) : Bool := x.magnitude < infinity

/-- Whether the datum is a zero, of either sign. -/
def isZero (x : Binary64) : Bool := x.magnitude == 0

/-- The datum with the other sign. -/
def neg (x : Binary64) : Binary64 := { x with negative := !x.negative }

/-- All 64 bits as one number. -/
def bits (x : Binary64) : Nat := (if x.negative then signBit else 0) + x.magnitude

/-- The datum of 64 bits. -/
def ofBits (n : Nat) : Binary64 := ⟨n / signBit % 2 == 1, n % signBit⟩

@[simp] theorem neg_neg (x : Binary64) : x.neg.neg = x := by cases x; simp [neg]

/-! ## 2. Magnitudes as multiples of powers of two -/

/-- The multiple of its unit that a finite magnitude is. -/
def significand (magnitude : Nat) : Nat :=
  if magnitude < fractions then magnitude else fractions + magnitude % fractions

/-- The number of places a magnitude's unit lies above the smallest unit. -/
def exponent (magnitude : Nat) : Nat :=
  if magnitude < fractions then 0 else magnitude / fractions - 1

/-- The place of the smallest unit: it is two to the power of this. -/
def smallestUnit : Int := -1074

/-- The value of a finite magnitude. -/
def ratio (magnitude : Nat) : Ratio :=
  (Ratio.ofNat (significand magnitude)).scale 2 (exponent magnitude + smallestUnit)

/-! ## 3. Rounding -/

/-- The magnitude nearest to a ratio, a half to the even one. What lies above every finite
magnitude is infinite. -/
def ofRatio (r : Ratio) : Nat :=
  if r.num = 0 then 0
  else
    let unit : Int := max (r.leadingBit - 52) smallestUnit
    min infinity ((unit - smallestUnit).toNat * fractions + (r.scale 2 (-unit)).round)

end Binary64

end Statechart
