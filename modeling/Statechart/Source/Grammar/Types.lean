import Statechart.Source.Pattern

/-!
# The grammar of types

Every type gives exactly one tree: a literal type or a type of some other sort. Inside a type, the
first name of a dotted one, the names of parameters and what `typeof` asks for are names of the
program; all others are names of types or properties.
-/

namespace Statechart.Source.Grammar

open Pattern

/-! ## 1. Small parts -/

/-- The brace that opens. -/
def openBrace : String := "\x7b"

/-- The brace that closes. -/
def closeBrace : String := "\x7d"

/-- A word that gives a leaf of its own text. -/
def wordLeaf (kind : Kind) (w : String) : Pattern := leafOf kind (word w) w

/-- A variable. -/
def variableName : Pattern := leaf .identifier .name

/-- A name of a property, reserved words included. -/
def memberName : Pattern := leaf .propertyName .word

/-- An equals sign that is not part of a longer sign. -/
def equals : Pattern := sign "=" "=>"

/-- A type after a colon. -/
def annotation : Pattern := seq [mark ":", phrase .type]

/-- What a function returns, after a colon. -/
def returnAnnotation : Pattern := seq [mark ":", phrase .returnType]

/-- A dotted name: a variable and names of properties. -/
def dottedName : Pattern := grow variableName [(.member, seq [mark ".", memberName])]

/-! ## 2. Types -/

/-- The type of a function or a constructor. -/
def functionType : Pattern :=
  choice [
    node .type (seq [phrase .signature, mark "=>", phrase .returnType]),
    node .type (seq [opt (word "abstract"), word "new", phrase .signature, mark "=>",
      phrase .type])]

/-- A type that is to be found, with a bound for it. -/
def boundedInference : Pattern :=
  node .type (seq [word "infer", leaf .typeName .name, word "extends", phrase .unionType])

/-- Any type. What follows the bound of a type to be found decides whether it is one, save where a
condition asks for it. -/
def type : Pattern :=
  let outcomes := seq [mark "?", phrase .type, mark ":", phrase .type]
  choice [
    functionType,
    grow (phrase .unionType)
      [(.type, seq [word "extends", boundedInference, outcomes]),
       (.type, seq [word "extends", phrase .type, outcomes])]]

/-- What a function returns: a type, or a statement about a parameter. -/
def returnType : Pattern :=
  let subject := choice [variableName, word "this"]
  choice [
    node .type (seq [word "asserts", sameLine, subject, opt (seq [word "is", phrase .type])]),
    node .type (seq [subject, sameLine, word "is", phrase .type]),
    phrase .type]

/-- Types joined by bars and ampersands. -/
def unionType : Pattern :=
  seq [
    opt (choice [mark "|", mark "&"]),
    grow (phrase .unaryType)
      [(.type, seq [sign "|" "|", phrase .unaryType]),
       (.type, seq [sign "&" "&", phrase .unaryType])]]

/-- A type with operators before and brackets after it. -/
def unaryType : Pattern :=
  choice [
    node .type (seq [choice [word "keyof", word "readonly", word "unique"], phrase .unaryType]),
    seq [boundedInference, notAhead (mark "?")],
    node .type (seq [word "infer", leaf .typeName .name]),
    grow (phrase .primaryType)
      [(.type, seq [sameLine, mark "[", mark "]"]),
       (.type, seq [sameLine, between "[" (phrase .type) "]"])]]

/-- A type that is a single value. -/
def literalType : Pattern :=
  node .literalType (choice [
    phrase .string,
    leaf .number .numeral,
    node .unary (seq [leafOf .operator (mark "-") "-", leaf .number .numeral]),
    node .unary (seq [leafOf .operator (mark "+") "+", leaf .number .numeral]),
    wordLeaf .trueLiteral "true",
    wordLeaf .falseLiteral "false",
    wordLeaf .null "null",
    wordLeaf .undefined "undefined"])

/-- One part of a type of lists of fixed length. -/
def tupleItem : Pattern :=
  choice [
    seq [mark "...", opt (seq [variableName, mark ":"]), phrase .type],
    seq [variableName, opt (mark "?"), annotation],
    seq [phrase .type, opt (mark "?")]]

/-- A template whose substitutions are types. -/
def templateType : Pattern :=
  seq [
    bare "`",
    many (choice [
      bareLeaf .stringFragment .templateText,
      bareLeaf .escapeSequence .escape,
      seq [mark ("$" ++ openBrace), inside (phrase .type), bare closeBrace]]),
    mark "`"]

/-- A type without operators. -/
def primaryType : Pattern :=
  choice [
    literalType,
    node .type (between "(" (phrase .type) ")"),
    phrase .typeBody,
    node .type (between "[" (list tupleItem) "]"),
    node .type templateType,
    node .type (seq [word "import", between "(" (list (choice [phrase .object, phrase .type])) ")",
      many (seq [mark ".", memberName]), opt (phrase .typeArguments)]),
    node .type (seq [
      word "typeof",
      choice [
        seq [ahead (word "import"), phrase .primaryType],
        dottedName,
        seq [word "this", many (seq [mark ".", memberName])]],
      opt (phrase .typeArguments)]),
    node .type (choice [word "void", word "this"]),
    node .type (seq [
      choice [seq [variableName, ahead (mark ".")], leaf .typeName .name],
      many (seq [mark ".", memberName]),
      opt (phrase .typeArguments)])]

/-- The types that something is applied to. -/
def typeArguments : Pattern := node .typeArguments (between "<" (list (phrase .type)) ">")

/-- The types that something is declared for. -/
def typeParameters : Pattern :=
  let modifier := choice [word "const", word "in", word "out"]
  let parameter := seq [
    many (seq [modifier, ahead (leaf .typeName .word)]),
    leaf .typeName .name,
    opt (seq [word "extends", phrase .type]),
    opt (seq [equals, phrase .type])]
  node .type (between "<" (list parameter) ">")

/-! ## 3. Members of types -/

/-- A word before a member, if a member does follow. -/
def modifiers (words : List String) : Pattern :=
  let noMember := ["(", "=", ";", ":", "?", "!", ",", closeBrace, "<"].map mark ++ [finished]
  many (seq [choice (words.map word), notAhead (choice noMember)])

/-- A sign before or after which an optional mark is added or taken away. -/
def signedMark (inner : Pattern) : Pattern := seq [opt (choice [mark "+", mark "-"]), inner]

/-- One member of an object type. -/
def typeMember : Pattern :=
  let readOnly := opt (signedMark (seq [word "readonly", ahead (mark "[")]))
  let optional := opt (signedMark (mark "?"))
  choice [
    seq [readOnly, mark "[", leaf .typeName .name, word "in", phrase .type,
      opt (seq [word "as", phrase .type]), mark "]", optional, opt annotation],
    seq [readOnly, mark "[", variableName, mark ":", phrase .type, mark "]", optional, annotation],
    seq [opt (word "new"), phrase .signature],
    seq [modifiers ["readonly", "get", "set"], phrase .propertyKey, opt (mark "?"),
      choice [phrase .signature, opt annotation]]]

/-- An object type; its members may be separated by line ends alone. -/
def typeBody : Pattern :=
  node .type (between openBrace
    (many (seq [typeMember, opt (choice [mark ",", mark ";"])])) closeBrace)

end Statechart.Source.Grammar
