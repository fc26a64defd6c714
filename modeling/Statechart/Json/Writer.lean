import Statechart.Json.Basic

/-!
# JSON texts

The compact text of a JSON value: no blanks, and in strings only what must be escaped is.
-/

namespace Statechart.Json

/-! ## 1. Strings -/

/-- A hexadecimal digit. -/
def hexDigit (n : Nat) : Char := (Nat.digitChar (n % 16))

/-- The four digits of a code unit. -/
def hexUnit (n : Nat) : List Char :=
  [hexDigit (n / 4096), hexDigit (n / 256), hexDigit (n / 16), hexDigit n]

/-- One code point of a string. Quote, backslash and control characters are escaped, the usual
ones by a letter; a surrogate that stands alone can only be written by its number. -/
def writeCode (n : Nat) : List Char :=
  match n with
  | 0x22 => ['\\', '"']
  | 0x5C => ['\\', '\\']
  | 0x08 => ['\\', 'b']
  | 0x09 => ['\\', 't']
  | 0x0A => ['\\', 'n']
  | 0x0C => ['\\', 'f']
  | 0x0D => ['\\', 'r']
  | _ =>
    if n < 0x20 then '\\' :: 'u' :: hexUnit n
    else
      match Text.char? n with
      | some c => [c]
      | none => '\\' :: 'u' :: hexUnit n

/-- A string with its quotes. -/
def writeString (codes : JsonString) : List Char := '"' :: codes.flatMap writeCode ++ ['"']

/-! ## 2. Values -/

mutual

/-- The text of a value. -/
def write : Json → List Char
  | null => ['n', 'u', 'l', 'l']
  | bool true => ['t', 'r', 'u', 'e']
  | bool false => ['f', 'a', 'l', 's', 'e']
  | number text => text.toList
  | string codes => writeString codes
  | array items => '[' :: writeItems items
  | object members => '{' :: writeMembers members

/-- The items of an array and the closing bracket. -/
def writeItems : List Json → List Char
  | [] => [']']
  | v :: rest => write v ++ writeMoreItems rest

/-- The items after the first and the closing bracket. -/
def writeMoreItems : List Json → List Char
  | [] => [']']
  | v :: rest => ',' :: write v ++ writeMoreItems rest

/-- The members of an object and the closing brace. -/
def writeMembers : List (JsonString × Json) → List Char
  | [] => ['}']
  | (k, v) :: rest => writeString k ++ ':' :: write v ++ writeMoreMembers rest

/-- The members after the first and the closing brace. -/
def writeMoreMembers : List (JsonString × Json) → List Char
  | [] => ['}']
  | (k, v) :: rest => ',' :: writeString k ++ ':' :: write v ++ writeMoreMembers rest

end

/-- The text of a value as a string. -/
def text (j : Json) : String := String.ofList j.write

end Statechart.Json
