import Statechart.Number.Binary64

/-!
# Numerals

The number a numeral stands for: a decimal one with point and exponent, rounded once, or one in
base 2, 8 or 16 after a mark. Underscores between digits are left out before reading.
-/

namespace Statechart.Numeral

/-! ## 1. Digits -/

/-- The value of a digit in a base up to 36, where letters follow the ten digits. -/
def digit? (base : Nat) (c : Char) : Option Nat :=
  let value :=
    if c.isDigit then c.toNat - '0'.toNat
    else if 'a' ≤ c && c ≤ 'z' then c.toNat - 'a'.toNat + 10
    else if 'A' ≤ c && c ≤ 'Z' then c.toNat - 'A'.toNat + 10
    else base
  if value < base then some value else none

/-- The value of a non-empty run of digits. -/
def natural? (base : Nat) (cs : List Char) : Option Nat :=
  if cs.isEmpty then none
  else cs.foldl (fun acc c => do return base * (← acc) + (← digit? base c)) (some 0)

/-- Whether a natural number fits 64 bits. -/
def fitsWord (n : Nat) : Bool := n < 0x10000000000000000

/-- A text without the sign in front, and whether that sign is a minus. -/
def sign : List Char → Bool × List Char
  | '-' :: rest => (true, rest)
  | '+' :: rest => (false, rest)
  | cs => (false, cs)

/-! ## 2. Decimal numerals -/

/-- A decimal numeral without its sign: digits before and after the point, and the exponent. -/
structure Decimal where
  whole : List Char
  fraction : List Char
  exponent : Int
deriving DecidableEq, Repr

namespace Decimal

/-- The exponent after its mark: an optional sign and at least one digit. -/
def exponent? (cs : List Char) : Option Int :=
  let (negative, digits) := sign cs
  (natural? 10 digits).map fun n => if negative then -(n : Int) else n

/-- Reads digits, a point with digits, and an exponent. There is at least one digit, before or
after the point. -/
def read? (cs : List Char) : Option Decimal :=
  let whole := cs.takeWhile Char.isDigit
  let rest := cs.dropWhile Char.isDigit
  let (fraction, rest) :=
    match rest with
    | '.' :: after => (after.takeWhile Char.isDigit, after.dropWhile Char.isDigit)
    | _ => ([], rest)
  if whole.isEmpty && fraction.isEmpty then none
  else
    match rest with
    | [] => some ⟨whole, fraction, 0⟩
    | c :: after =>
      if c = 'e' || c = 'E' then (exponent? after).map (⟨whole, fraction, ·⟩) else none

/-- All digits of the numeral as one natural number. -/
def digits (d : Decimal) : Nat := (natural? 10 (d.whole ++ d.fraction)).getD 0

/-- The power of ten that the digits are multiplied by. -/
def scale (d : Decimal) : Int := d.exponent - d.fraction.length

/-- The nearest magnitude. Numerals far outside the finite magnitudes are settled by the place of
their leading digit, which spares large powers. -/
def magnitude (d : Decimal) : Nat :=
  if d.digits = 0 then 0
  else
    let top : Int := d.scale + (Nat.toDigits 10 d.digits).length
    if 310 < top then Binary64.infinity
    else if top < -330 then 0
    else Binary64.ofRatio ((Ratio.ofNat d.digits).scale 10 d.scale)

end Decimal

/-! ## 3. Words for special numbers -/

/-- The magnitude of a word for infinity or for no number, in any case of letters. -/
def special? (cs : List Char) : Option Nat :=
  let word := String.ofList (cs.map Char.toLower)
  if word == "inf" || word == "infinity" then some Binary64.infinity
  else if word == "nan" then some Binary64.notANumber
  else none

/-- The number of a signed decimal numeral or special word. -/
def signed? (cs : List Char) : Option Binary64 :=
  let (negative, rest) := sign cs
  ((special? rest).or ((Decimal.read? rest).map Decimal.magnitude)).map (⟨negative, ·⟩)

/-! ## 4. Numerals in source text -/

/-- The base that the first two characters mark. -/
def markedBase? : List Char → Option (Nat × List Char)
  | '0' :: c :: rest =>
    if c = 'x' || c = 'X' then some (16, rest)
    else if c = 'o' || c = 'O' then some (8, rest)
    else if c = 'b' || c = 'B' then some (2, rest)
    else none
  | _ => none

/-- The digits after a mark: a plus may stand before them, and their value fits 64 bits. -/
def marked? (base : Nat) (cs : List Char) : Option Nat :=
  let digits := match cs with
    | '+' :: rest => rest
    | _ => cs
  (natural? base digits).filter fitsWord

/-- The number of a numeral with an optional minus in front. -/
def value? (text : String) : Option Binary64 :=
  let (negative, rest) := match text.toList with
    | '-' :: rest => (true, rest)
    | cs => (false, cs)
  let digits := rest.filter fun c => c != '_'
  let unsigned : Option Binary64 :=
    match markedBase? digits with
    | some (base, after) =>
      (marked? base after).map fun n => ⟨false, Binary64.ofRatio (.ofNat n)⟩
    | none => signed? digits
  if negative then unsigned.map Binary64.neg else unsigned

/-- Whether a text is a decimal numeral for zero, of either sign. -/
def isZero (text : String) : Bool := (signed? text.toList).any Binary64.isZero

end Statechart.Numeral
