import Statechart.Number.Numeral
import Statechart.Text.CodePoint

/-!
# Escapes

The text that an escape in a string or a template stands for. Each escape is decoded on its own.
An escape that names no character stands for the text after its backslash, without the line ends
right after it.
-/

namespace Statechart.Source

namespace Escape

/-- The character of a letter that is short for it. -/
def short? : Char → Option Char
  | 'n' => some '\n'
  | 't' => some '\t'
  | 'r' => some '\r'
  | '0' => some '\x00'
  | 'b' => some '\x08'
  | 'f' => some '\x0c'
  | 'v' => some '\x0b'
  | _ => none

/-- The hexadecimal digits of an escape by number: in braces after `u`, or else after `u` or `x`. -/
def hexDigits? : List Char → Option (List Char)
  | 'u' :: '{' :: rest =>
    if rest.getLast? = some '}' then some rest.dropLast else some ('{' :: rest)
  | 'u' :: rest => some rest
  | 'x' :: rest => some rest
  | _ => none

/-- The character that an escape names by number, from what stands after the backslash. -/
def numbered? (body : List Char) : Option Char :=
  ((hexDigits? body).bind (Numeral.natural? 16)).bind Text.char?

/-- The text of an escape, from what stands after the backslash. -/
def decodeBody (body : List Char) : List Char :=
  let named : Option Char :=
    match body with
    | [c] => short? c
    | _ => none
  match named.or (numbered? body) with
  | some c => [c]
  | none => body.dropWhile fun c => c = '\n' || c = '\r'

/-- The text of an escape. -/
def decode : List Char → List Char
  | '\\' :: body => decodeBody body
  | cs => decodeBody cs

end Escape

end Statechart.Source
