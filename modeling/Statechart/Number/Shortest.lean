import Statechart.Number.Binary64

/-!
# Shortest decimals

The decimal with the fewest digits that rounds to a given finite number. Of several such decimals
with equally many digits it is the nearest one, and of two equally near ones the even one.
-/

namespace Statechart

/-! ## 1. Digits -/

/-- A number of digits before a point that is moved `scale` places to the right. -/
structure ShortDecimal where
  digits : Nat
  scale : Int
deriving DecidableEq, Repr

namespace ShortDecimal

/-- The value of a decimal. -/
def ratio (d : ShortDecimal) : Ratio := (Ratio.ofNat d.digits).scale 10 d.scale

/-- Whether a decimal rounds to the magnitude. -/
def roundsTo (d : ShortDecimal) (magnitude : Nat) : Bool := Binary64.ofRatio d.ratio == magnitude

/-- Of the two multiples of ten to the power of `scale` around the magnitude the nearer one, or
else the other, if it rounds to the magnitude. -/
def onGrid? (magnitude : Nat) (scale : Int) : Option ShortDecimal :=
  let r := (Binary64.ratio magnitude).scale 10 (-scale)
  let near : ShortDecimal := ⟨r.round, scale⟩
  let far : ShortDecimal := ⟨if r.round = r.floor then r.floor + 1 else r.floor, scale⟩
  [near, far].find? fun d => d.roundsTo magnitude

/-- The place of the leading decimal digit of a positive ratio, counted from the point to the
left; searched downwards from `bound`. -/
def leadingPlace (r : Ratio) : (steps : Nat) → (bound : Int) → Int
  | 0, bound => bound
  | steps + 1, bound =>
    if (r.scale 10 (1 - bound)).isFraction then leadingPlace r steps (bound - 1) else bound

/-- The first grid with a hit, from the one of `count` digits on. -/
def search (magnitude : Nat) (place : Int) : (tries : Nat) → (count : Nat) → ShortDecimal
  | 0, _ => ⟨0, 0⟩
  | tries + 1, count =>
    match onGrid? magnitude (place - count) with
    | some d => d
    | none => search magnitude place tries (count + 1)

/-- A decimal without zeros at its end. -/
def stripZeros : (steps : Nat) → ShortDecimal → ShortDecimal
  | 0, d => d
  | steps + 1, d =>
    if d.digits ≠ 0 && d.digits % 10 = 0 then stripZeros steps ⟨d.digits / 10, d.scale + 1⟩
    else d

/-- The shortest decimal of a finite positive magnitude; 17 digits always suffice. -/
def ofMagnitude (magnitude : Nat) : ShortDecimal :=
  let place := leadingPlace (Binary64.ratio magnitude) 700 310
  stripZeros 20 (search magnitude place 18 1)

end ShortDecimal

/-! ## 2. Writing -/

/-- Where a decimal is written in full and where with an exponent. -/
structure DecimalStyle where
  /-- The largest number of digits before the point. -/
  maxWhole : Int
  /-- The largest number of zeros right after the point. -/
  maxZeros : Int

namespace DecimalStyle

/-- Writes a decimal. In full there is always a digit before and after the point; with an exponent
there is one digit before the point, and no point where no other digit follows. -/
def write (style : DecimalStyle) (d : ShortDecimal) : List Char :=
  let digits := Nat.toDigits 10 d.digits
  let place : Int := digits.length + d.scale
  if 0 ≤ d.scale && place ≤ style.maxWhole then
    digits ++ List.replicate d.scale.toNat '0' ++ ['.', '0']
  else if 0 < place && place ≤ style.maxWhole then
    digits.take place.toNat ++ '.' :: digits.drop place.toNat
  else if place ≤ 0 && -place ≤ style.maxZeros then
    '0' :: '.' :: List.replicate (-place).toNat '0' ++ digits
  else
    let power := place - 1
    let mark := 'e' :: (toString power).toList
    match digits with
    | [] => mark
    | first :: [] => first :: mark
    | first :: rest => first :: '.' :: rest ++ mark

end DecimalStyle

end Statechart
