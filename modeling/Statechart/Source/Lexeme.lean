import Statechart.Text.Blank

/-!
# Lexemes

The smallest units of source text: names, numerals, the parts of strings and templates, regular
expressions. Each is recognised at the front of the text that remains.
-/

namespace Statechart.Source

/-! ## 1. Classes of characters -/

/-- What may stand between lexemes: blanks, and three characters of no width. -/
def isGap (c : Char) : Bool :=
  Text.isBlank c || c.toNat = 0xFEFF || c.toNat = 0x2060 || c.toNat = 0x200B

/-- What ends a line. -/
def isLineEnd (c : Char) : Bool := c = '\n' || c.toNat = 0x2028 || c.toNat = 0x2029

/-- What no name contains besides gaps and control characters. -/
def punctuation : List Char := ":;\x60\"'@#.,|^&<=>+-*/\\%?!~()[]\x7b\x7d".toList

/-- What a name may contain after its first character. -/
def isNameChar (c : Char) : Bool :=
  0x20 < c.toNat && !isGap c && !punctuation.contains c

/-- A hexadecimal digit. -/
def isHex (c : Char) : Bool :=
  c.isDigit || ('a' ≤ c && c ≤ 'f') || ('A' ≤ c && c ≤ 'F')

/-- An octal digit. -/
def isOctal (c : Char) : Bool := '0' ≤ c && c ≤ '7'

/-! ## 2. Units -/

/-- The kinds of units. -/
inductive Lexeme
  /-- A name that is no reserved word. -/
  | name
  /-- A name or a reserved word. -/
  | word
  /-- A private name, with its mark. -/
  | privateName
  /-- The name of an element or an attribute, which may hold hyphens. -/
  | tagName
  | numeral
  | regex
  | escape
  /-- Plain text in a string with double quotes. -/
  | doubleQuoted
  /-- Plain text in a string with single quotes. -/
  | singleQuoted
  /-- Plain text in a template. -/
  | templateText
  /-- Plain text between tags. -/
  | tagText
  /-- The text of an attribute in double quotes. -/
  | doubleAttribute
  /-- The text of an attribute in single quotes. -/
  | singleAttribute
  /-- The first line of a file that names an interpreter. -/
  | interpreterLine
  /-- A whole word, or any other single character. -/
  | anything
deriving DecidableEq, Repr

/-- A recognised front of a text and what remains. -/
abbrev Split := Option (List Char × List Char)

/-- The words that are never names. -/
def reserved : List String :=
  ["break", "case", "catch", "class", "const", "continue", "debugger", "default", "delete", "do",
   "else", "enum", "export", "extends", "false", "finally", "for", "function", "if", "import",
   "in", "instanceof", "new", "null", "return", "super", "switch", "this", "throw", "true", "try",
   "typeof", "var", "void", "while", "with"]

namespace Lexeme

/-- The longest front, not empty, of characters of a class. -/
def run (p : Char → Bool) (cs : List Char) : Split :=
  let front := cs.takeWhile p
  if front.isEmpty then none else some (front, cs.dropWhile p)

/-- The characters of a name, which may be written as escapes. -/
def nameChars : List Char → List Char × List Char
  | '\\' :: 'u' :: '{' :: rest =>
    let hex := rest.takeWhile isHex
    match rest.dropWhile isHex with
    | '}' :: after => ('\\' :: 'u' :: '{' :: hex ++ ['}'], after)
    | _ => ([], '\\' :: 'u' :: '{' :: rest)
  | '\\' :: 'u' :: a :: b :: c :: d :: rest =>
    if isHex a && isHex b && isHex c && isHex d then
      let (more, after) := nameChars rest
      ('\\' :: 'u' :: a :: b :: c :: d :: more, after)
    else ([], '\\' :: 'u' :: a :: b :: c :: d :: rest)
  | c :: rest =>
    if isNameChar c then
      let (more, after) := nameChars rest
      (c :: more, after)
    else ([], c :: rest)
  | [] => ([], [])

/-- A name or a reserved word; it starts with no digit. -/
def readWord (cs : List Char) : Split :=
  match cs with
  | c :: _ =>
    if c.isDigit then none
    else
      let (front, rest) := nameChars cs
      if front.isEmpty then none else some (front, rest)
  | [] => none

/-- Digits of a class and underscores between them. -/
def digitsOf (p : Char → Bool) (cs : List Char) : List Char × List Char :=
  let q := fun c => p c || c = '_'
  (cs.takeWhile q, cs.dropWhile q)

/-- The exponent of a numeral, or nothing. -/
def exponentOf : List Char → List Char × List Char
  | e :: cs =>
    if e = 'e' || e = 'E' then
      let (signs, rest) :=
        match cs with
        | '+' :: after => (['+'], after)
        | '-' :: after => (['-'], after)
        | _ => ([], cs)
      let (digits, after) := digitsOf Char.isDigit rest
      if digits.isEmpty then ([], e :: cs) else (e :: signs ++ digits, after)
    else ([], e :: cs)
  | [] => ([], [])

/-- The mark of an integer of any size, or nothing. -/
def bigMark : List Char → List Char × List Char
  | 'n' :: rest => (['n'], rest)
  | cs => ([], cs)

/-- A numeral after a mark for its base. -/
def markedNumeral (mark : Char) (p : Char → Bool) (cs : List Char) : Split :=
  let (digits, rest) := digitsOf p cs
  let (big, rest) := bigMark rest
  if digits.isEmpty then none else some ('0' :: mark :: digits ++ big, rest)

/-- A decimal numeral. -/
def decimalNumeral (cs : List Char) : Split :=
  let (whole, rest) := digitsOf Char.isDigit cs
  let (fraction, rest) :=
    match rest with
    | '.' :: after =>
      let (digits, left) := digitsOf Char.isDigit after
      if whole.isEmpty && digits.isEmpty then ([], rest) else ('.' :: digits, left)
    | _ => ([], rest)
  let (exponent, rest) := exponentOf rest
  let (big, rest) := bigMark rest
  if whole.isEmpty && fraction.isEmpty then none
  else some (whole ++ fraction ++ exponent ++ big, rest)

/-- A numeral in any base. -/
def readNumeral : List Char → Split
  | '0' :: mark :: rest =>
    if mark = 'x' || mark = 'X' then markedNumeral mark isHex rest
    else if mark = 'o' || mark = 'O' then markedNumeral mark isOctal rest
    else if mark = 'b' || mark = 'B' then markedNumeral mark (fun c => c = '0' || c = '1') rest
    else decimalNumeral ('0' :: mark :: rest)
  | '_' :: _ => none
  | cs => decimalNumeral cs

/-- An escape: a backslash with one to three octal digits, with the number of a character, with a
line end after a carriage return or a question mark, or with any other character. -/
def readEscape : List Char → Split
  | '\\' :: 'x' :: a :: b :: rest =>
    if isHex a && isHex b then some (['\\', 'x', a, b], rest)
    else some (['\\', 'x'], a :: b :: rest)
  | '\\' :: 'u' :: '{' :: rest =>
    let hex := rest.takeWhile isHex
    match rest.dropWhile isHex with
    | '}' :: after =>
      if hex.isEmpty then some (['\\', 'u'], '{' :: rest)
      else some ('\\' :: 'u' :: '{' :: hex ++ ['}'], after)
    | _ => some (['\\', 'u'], '{' :: rest)
  | '\\' :: 'u' :: a :: b :: c :: d :: rest =>
    if isHex a && isHex b && isHex c && isHex d then some (['\\', 'u', a, b, c, d], rest)
    else some (['\\', 'u'], a :: b :: c :: d :: rest)
  | '\\' :: c :: rest =>
    if (c = '\r' || c = '?') && rest.head?.any isLineEnd then
      some ('\\' :: c :: rest.take 1, rest.drop 1)
    else if isOctal c then
      let more := (rest.take 2).takeWhile isOctal
      some ('\\' :: c :: more, rest.drop more.length)
    else some (['\\', c], rest)
  | _ => none

/-- The body of a regular expression and its closing slash. A slash in brackets closes nothing. -/
def regexBody : (inBrackets : Bool) → List Char → Split
  | _, [] => none
  | inBrackets, '\\' :: c :: rest =>
    (regexBody inBrackets rest).map fun (front, after) => ('\\' :: c :: front, after)
  | inBrackets, c :: rest =>
    if c = '\n' || c = '\r' then none
    else if c = '/' && !inBrackets then some (['/'], rest)
    else
      let inside := if c = '[' then true else if c = ']' then false else inBrackets
      (regexBody inside rest).map fun (front, after) => (c :: front, after)

/-- A regular expression with its flags. -/
def readRegex : List Char → Split
  | '/' :: rest =>
    if rest.head? = some '/' || rest.head? = some '*' then none
    else (regexBody false rest).map fun (front, after) =>
      ('/' :: front ++ after.takeWhile isNameChar, after.dropWhile isNameChar)
  | _ => none

/-- Plain text in a template: up to a backquote, a backslash, or a dollar sign with a brace. -/
def templateChars : List Char → List Char × List Char
  | '$' :: '{' :: rest => ([], '$' :: '{' :: rest)
  | c :: rest =>
    if c.toNat = 0x60 || c = '\\' then ([], c :: rest)
    else
      let (more, after) := templateChars rest
      (c :: more, after)
  | [] => ([], [])

/-- Recognises a unit at the front of a text. -/
def read : Lexeme → List Char → Split
  | name, cs =>
    match readWord cs with
    | some (front, rest) =>
      if reserved.contains (String.ofList front) then none else some (front, rest)
    | none => none
  | word, cs => readWord cs
  | privateName, '#' :: cs => (readWord cs).map fun (front, rest) => ('#' :: front, rest)
  | privateName, _ => none
  | tagName, cs =>
    match readWord cs with
    | some _ => run (fun c => isNameChar c || c = '-') cs
    | none => none
  | numeral, cs => readNumeral cs
  | regex, cs => readRegex cs
  | escape, cs => readEscape cs
  | doubleQuoted, cs => run (fun c => c != '"' && c != '\\' && c != '\n' && c != '\r') cs
  | singleQuoted, cs => run (fun c => c != '\'' && c != '\\' && c != '\n' && c != '\r') cs
  | templateText, cs =>
    let (front, rest) := templateChars cs
    if front.isEmpty then none else some (front, rest)
  | tagText, cs => run (fun c => c != '<' && c != '>' && c != '{' && c != '}') cs
  | doubleAttribute, cs => run (fun c => c != '"') cs
  | singleAttribute, cs => run (fun c => c != '\'') cs
  | interpreterLine, '#' :: '!' :: cs =>
    some ('#' :: '!' :: cs.takeWhile (fun c => !isLineEnd c), cs.dropWhile (fun c => !isLineEnd c))
  | interpreterLine, _ => none
  | anything, [] => none
  | anything, c :: cs => (readWord (c :: cs)).or (some ([c], cs))

end Lexeme

end Statechart.Source
