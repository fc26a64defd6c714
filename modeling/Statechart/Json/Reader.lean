import Statechart.Json.Basic
import Statechart.Number.Numeral

/-!
# Reading JSON texts

A text is read if it is one JSON value with blanks around it and nothing else. There is no bound on
nesting. A name may be repeated in an object; what that means is left to those who use the value.
-/

namespace Statechart.Json

/-! ## 1. Blanks and numbers -/

/-- The four blanks of JSON. -/
def isBlank (c : Char) : Bool := c = ' ' || c = '\t' || c = '\n' || c = '\r'

/-- What follows the blanks in front. -/
def skipBlanks (cs : List Char) : List Char := cs.dropWhile isBlank

/-- At least one digit, and what follows the digits. -/
def readDigits (cs : List Char) : Option (List Char × List Char) :=
  let digits := cs.takeWhile Char.isDigit
  if digits.isEmpty then none else some (digits, cs.dropWhile Char.isDigit)

/-- The whole part of a number: a zero alone, or digits that start with no zero. -/
def readWhole (cs : List Char) : Option (List Char × List Char) := do
  let (digits, rest) ← readDigits cs
  if digits.head? = some '0' && digits.length ≠ 1 then none else some (digits, rest)

/-- The fraction of a number: nothing, or a point and digits. -/
def readFraction : List Char → Option (List Char × List Char)
  | '.' :: rest => do
    let (digits, rest) ← readDigits rest
    return ('.' :: digits, rest)
  | cs => some ([], cs)

/-- The exponent of a number: nothing, or its mark, a sign or none, and digits. -/
def readExponent : List Char → Option (List Char × List Char)
  | c :: rest =>
    if c = 'e' || c = 'E' then
      let (signs, rest) :=
        match rest with
        | '+' :: after => (['+'], after)
        | '-' :: after => (['-'], after)
        | _ => ([], rest)
      do
        let (digits, rest) ← readDigits rest
        return (c :: signs ++ digits, rest)
    else some ([], c :: rest)
  | [] => some ([], [])

/-- A number as written, and what follows it. -/
def readNumber (cs : List Char) : Option (Json × List Char) := do
  let (sign, rest) :=
    match cs with
    | '-' :: rest => (['-'], rest)
    | _ => ([], cs)
  let (whole, rest) ← readWhole rest
  let (fraction, rest) ← readFraction rest
  let (exponent, rest) ← readExponent rest
  return (number (String.ofList (sign ++ whole ++ fraction ++ exponent)), rest)

/-! ## 2. Strings -/

/-- The value of four hexadecimal digits. -/
def unit? (a b c d : Char) : Option Nat := Numeral.natural? 16 [a, b, c, d]

/-- The code point of an escape of one letter. -/
def escape? : Char → Option Nat
  | '"' => some 0x22
  | '\\' => some 0x5C
  | '/' => some 0x2F
  | 'b' => some 0x08
  | 't' => some 0x09
  | 'n' => some 0x0A
  | 'f' => some 0x0C
  | 'r' => some 0x0D
  | _ => none

/-- The code units of a string after its opening quote, each with the mark whether it was written
by its number, and what follows the closing quote. -/
def readUnits : List Char → Option (List (Nat × Bool) × List Char)
  | '"' :: rest => some ([], rest)
  | '\\' :: 'u' :: a :: b :: c :: d :: rest => do
    let n ← unit? a b c d
    let (more, after) ← readUnits rest
    return ((n, true) :: more, after)
  | '\\' :: e :: rest => do
    let n ← escape? e
    let (more, after) ← readUnits rest
    return ((n, false) :: more, after)
  | c :: rest =>
    if c.toNat < 0x20 || c = '\\' then none
    else do
      let (more, after) ← readUnits rest
      return ((c.toNat, false) :: more, after)
  | [] => none

/-- Joins each high surrogate with a low one right after it, both written by their numbers. -/
def joinPairs : List (Nat × Bool) → JsonString
  | (high, true) :: (low, true) :: rest =>
    if 0xD800 ≤ high ∧ high < 0xDC00 ∧ 0xDC00 ≤ low ∧ low < 0xE000 then
      (0x10000 + (high - 0xD800) * 0x400 + (low - 0xDC00)) :: joinPairs rest
    else high :: joinPairs ((low, true) :: rest)
  | (n, _) :: rest => n :: joinPairs rest
  | [] => []

/-- A string after its opening quote, and what follows the closing one. -/
def readString (cs : List Char) : Option (JsonString × List Char) :=
  (readUnits cs).map fun (units, rest) => (joinPairs units, rest)

/-! ## 3. Values -/

mutual

/-- A value with blanks before it, and what follows it. Each step uses up a unit of fuel. -/
def readValue : Nat → List Char → Option (Json × List Char)
  | 0, _ => none
  | fuel + 1, cs =>
    match skipBlanks cs with
    | 'n' :: 'u' :: 'l' :: 'l' :: rest => some (null, rest)
    | 't' :: 'r' :: 'u' :: 'e' :: rest => some (bool true, rest)
    | 'f' :: 'a' :: 'l' :: 's' :: 'e' :: rest => some (bool false, rest)
    | '"' :: rest => (readString rest).map fun (s, rest) => (string s, rest)
    | '[' :: rest =>
      match skipBlanks rest with
      | ']' :: rest => some (array [], rest)
      | rest => (readItems fuel rest).map fun (items, rest) => (array items, rest)
    | '{' :: rest =>
      match skipBlanks rest with
      | '}' :: rest => some (object [], rest)
      | rest => (readMembers fuel rest).map fun (members, rest) => (object members, rest)
    | rest => readNumber rest

/-- One item or more and the closing bracket, and what follows. -/
def readItems : Nat → List Char → Option (List Json × List Char)
  | 0, _ => none
  | fuel + 1, cs => do
    let (v, rest) ← readValue fuel cs
    match skipBlanks rest with
    | ']' :: rest => return ([v], rest)
    | ',' :: rest =>
      let (more, rest) ← readItems fuel rest
      return (v :: more, rest)
    | _ => none

/-- One member or more and the closing brace, and what follows. -/
def readMembers : Nat → List Char → Option (List (JsonString × Json) × List Char)
  | 0, _ => none
  | fuel + 1, cs =>
    match skipBlanks cs with
    | '"' :: rest => do
      let (k, rest) ← readString rest
      match skipBlanks rest with
      | ':' :: rest =>
        let (v, rest) ← readValue fuel rest
        match skipBlanks rest with
        | '}' :: rest => return ([(k, v)], rest)
        | ',' :: rest =>
          let (more, rest) ← readMembers fuel rest
          return ((k, v) :: more, rest)
        | _ => none
      | _ => none
    | _ => none

end

/-- The value of a text. Every character lets at most two steps begin, which bounds the fuel. -/
def ofText? (s : String) : Option Json :=
  match readValue (2 * s.toList.length + 2) s.toList with
  | some (v, rest) => if (skipBlanks rest).isEmpty then some v else none
  | none => none

end Statechart.Json
