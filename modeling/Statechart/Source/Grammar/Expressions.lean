import Statechart.Source.Grammar.Types

/-!
# The grammar of expressions

Operators of two places are read from left to right without regard to their rank, since only the
sort of an expression matters and never what it computes; three ranks are kept apart. A call with
type arguments takes everything before it down to the last comparison or logical operator as its
callee, so that operators of one place and arithmetic bind more tightly than it does.
-/

namespace Statechart.Source.Grammar

open Pattern

/-! ## 1. Literals -/

/-- A string in quotes of either sort. -/
def string : Pattern :=
  let quoted (quote : String) (text : Lexeme) :=
    seq [bare quote,
      many (choice [bareLeaf .stringFragment text, bareLeaf .escapeSequence .escape]), mark quote]
  node .string (choice [quoted "\"" .doubleQuoted, quoted "'" .singleQuoted])

/-- A template with its substitutions. -/
def template : Pattern :=
  node .templateString (seq [
    bare "`",
    many (choice [
      bareLeaf .stringFragment .templateText,
      bareLeaf .escapeSequence .escape,
      node .templateSubstitution
        (seq [mark ("$" ++ openBrace), inside (phrase .expression), bare closeBrace])]),
    mark "`"])

/-- An expression or three dots and an expression. -/
def item : Pattern := choice [node .spread (seq [mark "...", phrase .single]), phrase .single]

/-- Things with commas between them, some of which may be missing. -/
def withHoles (inner : Pattern) : Pattern :=
  many (choice [mark ",", seq [inner, choice [mark ",", ahead (mark "]")]]])

/-- An array; holes leave no trace. -/
def array : Pattern := node .array (between "[" (withHoles item) "]")

/-- The arguments of a call. -/
def arguments : Pattern := node .arguments (between "(" (list item) ")")

/-- The key of a property. -/
def propertyKey : Pattern :=
  choice [
    node .computedName (between "[" (phrase .single) "]"),
    phrase .string,
    leaf .number .numeral,
    leaf .propertyName .privateName,
    memberName]

/-- What is written between the braces of an object. -/
def objectEntry : Pattern :=
  let method (before : Pattern) :=
    node .method (seq [before, phrase .propertyKey, phrase .signature, phrase .block])
  choice [
    node .spread (seq [mark "...", phrase .single]),
    method (seq [word "async", sameLine, opt (mark "*")]),
    method (choice [word "get", word "set"]),
    method (opt (mark "*")),
    node .pair (seq [phrase .propertyKey, mark ":", phrase .single]),
    seq [leaf .shorthandProperty .name, opt (seq [equals, phrase .single])]]

/-- An object. -/
def object : Pattern := node .object (between openBrace (list objectEntry) closeBrace)

/-! ## 2. Elements between tags -/

/-- The name of an element: a variable, or names joined by dots or a colon. -/
def elementName : Pattern :=
  grow (leaf .identifier .tagName)
    [(.member, seq [mark ".", memberName]),
     (.jsxPart, seq [mark ":", leaf .identifier .tagName])]

/-- An expression in braces, or nothing in braces. -/
def braced (close : Pattern) : Pattern :=
  node .jsxPart (seq [
    mark openBrace,
    inside (opt (seq [opt (mark "..."), phrase .expression])),
    close])

/-- The value of an attribute. -/
def attributeValue : Pattern :=
  let quoted (quote : String) (text : Lexeme) :=
    node .string (seq [bare quote, opt (bareLeaf .stringFragment text), mark quote])
  choice [
    quoted "\"" .doubleAttribute,
    quoted "'" .singleAttribute,
    braced (mark closeBrace),
    seq [phrase .element, gaps]]

/-- An attribute of an element. -/
def elementAttribute : Pattern :=
  choice [
    braced (mark closeBrace),
    node .jsxPart (seq [
      choice [
        seq [leaf .identifier .tagName, mark ":", leaf .identifier .tagName],
        leaf .propertyName .tagName],
      opt (seq [mark "=", attributeValue])])]

/-- An element with its tags. The gap after it is left, since it may be text. -/
def element : Pattern :=
  let opening := seq [mark "<", elementName, opt (phrase .typeArguments), many elementAttribute]
  let content :=
    many (choice [bareLeaf .jsxPart .tagText, braced (bare closeBrace), phrase .element])
  choice [
    node .jsxSelfClosing (seq [opening, mark "/", bare ">"]),
    node .jsxElement
      (seq [opening, bare ">", content, mark "<", mark "/", elementName, bare ">"]),
    node .jsxElement (seq [mark "<", bare ">", content, mark "<", mark "/", bare ">"])]

/-! ## 3. Basic expressions -/

/-- A function with its body. -/
def functionExpression : Pattern :=
  node .function (seq [opt (seq [word "async", sameLine]), word "function", opt (mark "*"),
    opt variableName, phrase .signature, phrase .block])

/-- The name of a class. -/
def className : Pattern := seq [notAhead (word "implements"), leaf .typeName .name]

/-- A class with its body. -/
def classExpression : Pattern :=
  node .classExpression
    (seq [many (phrase .decorator), word "class", opt className, phrase .classTail])

/-- The dot or the question mark and dot before a member. -/
def optionalDot : Pattern := sign "?." "0123456789"

/-- A member after a basic expression. -/
def memberSteps : List (Kind × Pattern) :=
  let name := choice [leaf .propertyName .privateName, memberName]
  [(.member, seq [sign "." ".", name]),
   (.subscript, between "[" (phrase .expression) "]"),
   (.member, seq [optionalDot, name])]

/-- A call after a basic expression. -/
def callSteps : List (Kind × Pattern) :=
  [(.call, phrase .arguments),
   (.call, phrase .template),
   (.call, seq [optionalDot, opt (phrase .typeArguments), phrase .arguments]),
   (.subscript, seq [optionalDot, between "[" (phrase .expression) "]"]),
   (.nonNull, seq [sameLine, sign "!" "="]),
   (.update, seq [sameLine, choice [mark "++", mark "--"]])]

/-- What may follow type arguments that belong to no call: the end of the expression, or an
operator that cannot stand before an operand. -/
def afterInstantiation : Pattern :=
  let closing := [")", "]", ",", ";", closeBrace, ":"]
  let operators := ["?", "|", "&", "^", "*", "%", "==", "!="]
  let words := ["as", "satisfies", "instanceof", "in"]
  choice ((closing ++ operators).map mark ++ words.map word ++ [finished, freshLine])

/-- An object made by a constructor. -/
def construction : Pattern :=
  let callee := grow (phrase .primary) (memberSteps.take 2)
  node .construction (seq [word "new", callee,
    opt (choice [
      seq [phrase .typeArguments, phrase .arguments],
      seq [phrase .typeArguments, ahead afterInstantiation],
      phrase .arguments])])

/-- An expression without operators. -/
def primary : Pattern :=
  choice [
    leaf .number .numeral,
    phrase .string,
    phrase .template,
    phrase .object,
    array,
    node .parenthesized (between "(" (phrase .expression) ")"),
    leaf .regex .regex,
    seq [elements true, phrase .element, gaps],
    functionExpression,
    classExpression,
    leafOf .metaProperty (seq [word "new", mark ".", word "target"]) "new.target",
    construction,
    leafOf .metaProperty (seq [word "import", mark ".", word "meta"]) "import.meta",
    wordLeaf .importWord "import",
    wordLeaf .thisWord "this",
    wordLeaf .superWord "super",
    wordLeaf .null "null",
    wordLeaf .trueLiteral "true",
    wordLeaf .falseLiteral "false",
    wordLeaf .undefined "undefined",
    leaf .propertyName .privateName,
    variableName]

/-- A basic expression with members and calls after it. -/
def postfixed : Pattern := grow (phrase .primary) (memberSteps ++ callSteps)

/-! ## 4. Operators -/

/-- The operators that stand before their operand. -/
def prefixOperators : List Pattern :=
  [leafOf .operator (mark "!") "!",
   leafOf .operator (mark "~") "~",
   leafOf .operator (sign "-" "-") "-",
   leafOf .operator (sign "+" "+") "+",
   wordLeaf .operator "typeof",
   wordLeaf .operator "void",
   wordLeaf .operator "delete"]

/-- An operand with operators before it. -/
def prefixed : Pattern :=
  choice [
    node .unary (seq [choice prefixOperators, phrase .prefixed]),
    node .update (seq [choice [mark "++", mark "--"], phrase .prefixed]),
    node .awaitExpression (seq [word "await", phrase .prefixed]),
    node .typeAssertion (seq [elements false, mark "<", choice [word "const", phrase .type],
      mark ">", phrase .prefixed]),
    phrase .postfixed]

/-- The operators of arithmetic. -/
def tightOperators : Pattern :=
  choice [
    sign "**" "=",
    sign "*" "*=",
    sign "/" "=",
    sign "%" "=",
    sign "+" "+=",
    sign "-" "-=",
    sign "<<" "=",
    sign ">>>" "=",
    sign ">>" ">="]

/-- Operands with arithmetic between them, and calls with type arguments. -/
def tight : Pattern :=
  grow (phrase .prefixed)
    ([(.binary, seq [tightOperators, phrase .prefixed]),
      (.call, seq [phrase .typeArguments, phrase .arguments]),
      (.instantiation, seq [phrase .typeArguments, ahead afterInstantiation])] ++
      memberSteps ++ callSteps)

/-- The operators of comparison and logic. -/
def looseOperators : Pattern :=
  choice [
    sign "&&" "=",
    sign "||" "=",
    sign "??" "=",
    mark "===",
    mark "!==",
    sign "==" "=",
    mark "!=",
    sign "<=" "",
    sign "<" "<=",
    sign ">=" "",
    sign ">" ">=",
    sign "&" "&=",
    sign "|" "|=",
    sign "^" "=",
    word "instanceof",
    word "in"]

/-- Operands with any operators between them, and claims about types. Arithmetic goes on here only
after such a claim, since all of it before one belongs to an operand. -/
def chain : Pattern :=
  grow (phrase .tight)
    [(.binary, seq [choice [looseOperators, tightOperators], phrase .tight]),
     (.asType, seq [sameStatement, word "as", choice [word "const", phrase .type]]),
     (.satisfies, seq [sameStatement, word "satisfies", phrase .type])]

/-- The signs of assignments that compute. -/
def augmentedSigns : Pattern :=
  choice (["**=", "+=", "-=", "*=", "/=", "%=", "<<=", ">>>=", ">>=", "&&=", "||=", "??=", "&=",
    "|=", "^="].map mark)

/-- A function written with an arrow. -/
def arrow : Pattern :=
  let body := seq [sameLine, mark "=>", choice [phrase .block, phrase .single]]
  node .function (choice [
    seq [word "async", sameLine, phrase .signature, body],
    seq [word "async", sameLine, variableName, body],
    seq [phrase .signature, body],
    seq [variableName, body]])

/-- An expression without a comma. -/
def single : Pattern :=
  choice [
    arrow,
    node .yieldExpression (seq [word "yield",
      opt (choice [seq [mark "*", phrase .single], seq [sameLine, phrase .single]])]),
    seq [ahead (choice [mark openBrace, mark "["]),
      node .assignment (seq [phrase .target, equals, phrase .single])],
    grow (phrase .chain)
      [(.ternary, seq [sign "?" "?", phrase .single, mark ":", phrase .single]),
       (.ternary, seq [sign "?" "?", phrase .chain, mark ":", phrase .single]),
       (.assignment, seq [equals, phrase .single]),
       (.augmentedAssignment, seq [augmentedSigns, phrase .single])]]

/-- Expressions with commas between them. -/
def expression : Pattern :=
  grow (phrase .single) [(.sequence, seq [mark ",", phrase .single])]

/-! ## 5. What is taken apart -/

/-- The value of what is missing. -/
def defaultValue : Pattern := opt (seq [equals, phrase .single])

/-- A pattern with names, objects and arrays; a name alone in an object is no variable use. -/
def takenApart (self : Phrase) (name : Pattern) : Pattern :=
  choice [
    node .pattern (between openBrace (list (choice [
      seq [mark "...", phrase self],
      seq [phrase .propertyKey, mark ":", phrase self, defaultValue],
      seq [leaf .shorthandPattern .name, defaultValue]])) closeBrace),
    node .pattern
      (between "[" (withHoles (seq [opt (mark "..."), phrase self, defaultValue])) "]"),
    name]

/-- What a declaration takes apart. -/
def binding : Pattern := takenApart .binding variableName

/-- What an assignment takes apart. -/
def target : Pattern :=
  takenApart .target (grow (choice [variableName, wordLeaf .thisWord "this"])
    [(.member, seq [sign "." ".", memberName])])

/-! ## 6. Functions and classes -/

/-- The parameters of a function. -/
def parameters : Pattern :=
  let modifier := choice (["public", "private", "protected", "readonly", "override"].map word)
  let parameter := seq [
    many (phrase .decorator),
    many (seq [modifier, ahead (choice [mark openBrace, mark "[", leaf .identifier .word])]),
    opt (mark "..."),
    choice [wordLeaf .thisWord "this", phrase .binding],
    opt (mark "?"), opt annotation, defaultValue]
  node .parameters (between "(" (list parameter) ")")

/-- Types, parameters and result of a function. -/
def signature : Pattern :=
  seq [opt (phrase .typeParameters), phrase .parameters, opt returnAnnotation]

/-- A mark that calls on an expression before a class or a member. -/
def decorator : Pattern :=
  node .decorator (seq [mark "@",
    grow (choice [node .parenthesized (between "(" (phrase .expression) ")"), variableName])
      [(.member, seq [mark ".", memberName]),
       (.call, phrase .arguments),
       (.call, seq [phrase .typeArguments, phrase .arguments])]])

/-- A member of a class. -/
def classMember : Pattern :=
  let words := ["public", "private", "protected", "static", "abstract", "override", "readonly",
    "declare", "accessor", "async", "get", "set"]
  choice [
    mark ";",
    node .classMember (seq [word "static", phrase .block]),
    node .classMember (seq [
      many (phrase .decorator),
      modifiers words,
      choice [
        seq [mark "[", variableName, mark ":", phrase .type, mark "]", annotation,
          phrase .statementEnd],
        seq [
          opt (mark "*"), phrase .propertyKey, opt (choice [mark "?", mark "!"]),
          choice [
            seq [phrase .signature, choice [phrase .block, phrase .statementEnd]],
            seq [opt annotation, defaultValue, phrase .statementEnd]]]]])]

/-- What follows the name of a class: types, ancestors, body. -/
def classTail : Pattern :=
  let types := separated (mark ",") (phrase .type)
  let ancestor := grow (phrase .postfixed)
    [(.call, seq [phrase .typeArguments, phrase .arguments])]
  seq [
    opt (phrase .typeParameters),
    opt (seq [word "extends", inside ancestor, opt (phrase .typeArguments)]),
    opt (seq [word "implements", types]),
    mark openBrace, outside (many classMember), mark closeBrace]

end Statechart.Source.Grammar
