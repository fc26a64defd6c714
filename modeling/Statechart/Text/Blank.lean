/-!
# Blank characters

The characters with the Unicode property `White_Space`, and the text that is left when they are
taken off both ends.
-/

namespace Statechart.Text

/-! ## 1. The table -/

/-- The code point ranges of `White_Space`, both ends included. -/
def blankRanges : List (Nat × Nat) :=
  [(0x09, 0x0D), (0x20, 0x20), (0x85, 0x85), (0xA0, 0xA0), (0x1680, 0x1680), (0x2000, 0x200A),
   (0x2028, 0x2029), (0x202F, 0x202F), (0x205F, 0x205F), (0x3000, 0x3000)]

/-- A blank character: its code point lies in one of the ranges. -/
def isBlank (c : Char) : Bool :=
  blankRanges.any fun (lo, hi) => lo ≤ c.toNat && c.toNat ≤ hi

/-! ## 2. Trimming -/

/-- The text without the blanks at its two ends. -/
def trim (cs : List Char) : List Char :=
  ((cs.dropWhile isBlank).reverse.dropWhile isBlank).reverse

@[simp] theorem trim_nil : trim [] = [] := rfl

end Statechart.Text
