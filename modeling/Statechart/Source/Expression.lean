import Statechart.Expression
import Statechart.Source.Escape
import Statechart.Source.Tree

/-!
# Expressions of syntax trees

The expression that a tree stands for. Parentheses and claims about types are looked through, and
operators of one place are applied to the literals for which that is plain.
-/

namespace Statechart.Source.Tree

/-! ## 1. Texts of strings and templates -/

/-- The text of one part of a string. -/
def partText (t : Tree) : String :=
  if t.kind = .escapeSequence then String.ofList (Escape.decode t.text.toList) else t.text

/-- The text of a string from its parts. -/
def stringText (parts : List Tree) : String := String.join (parts.map partText)

/-- The text of a template from its parts, unless something is substituted in it. -/
def templateText? (parts : List Tree) : Option String :=
  if parts.any fun t => t.kind = .templateSubstitution then none else some (stringText parts)

/-- The key that a property is written under, unless it is computed. -/
def key? : Tree → Option String
  | leaf .propertyName text _ => some text
  | leaf .number text _ => some text
  | node .string parts => some (stringText parts)
  | _ => none

/-! ## 2. Operators -/

/-- An operator of one place on an expression that is plain enough; of a number only the sign is
kept, and its truth is that of a decimal numeral. -/
def applyUnary (operator : String) (e : Expression) : Expression :=
  match operator, e with
  | "void", _ => .undefined
  | "-", .number text => .number ("-" ++ text)
  | "+", .number text => .number text
  | "!", .bool b => .bool !b
  | "!", .number text => .bool (Numeral.isZero text)
  | _, _ => .other Kind.unary.label

/-! ## 3. Expressions -/

mutual

/-- The expression of a tree. -/
def expression : Tree → Expression
  | leaf .number text _ => .number text
  | leaf .trueLiteral _ _ => .bool true
  | leaf .falseLiteral _ _ => .bool false
  | leaf .null _ _ => .null
  | leaf .undefined _ _ => .undefined
  | leaf .identifier text _ => .ofName text
  | leaf kind _ _ => .other kind.label
  | node .object parts => .object (entries parts)
  | node .array items => .array (expressions items)
  | node .string parts => .string (stringText parts)
  | node .templateString parts =>
    match templateText? parts with
    | some text => .string text
    | none => .other Kind.templateString.label
  | node .function _ => .function
  | node .member [object, property] => .member (expression object) property.text
  | node .call [callee, node _ args] => .call (expression callee) (expressions args)
  | node .call [callee, _, node _ args] => .call (expression callee) (expressions args)
  | node .asType [_, node .literalType (literal :: _)] => expression literal
  | node .asType (e :: _) => expression e
  | node .satisfies (e :: _) => expression e
  | node .parenthesized (e :: _) => expression e
  | node .nonNull (e :: _) => expression e
  | node .typeAssertion [e] => expression e
  | node .typeAssertion [_, e] => expression e
  | node .unary [operator, e] => applyUnary operator.text (expression e)
  | node kind _ => .other kind.label

/-- The expressions of some trees. -/
def expressions : List Tree → List Expression
  | [] => []
  | t :: rest => expression t :: expressions rest

/-- The entry of an object that a tree stands for. -/
def entry : Tree → Entry
  | node .pair [key, value] =>
    match key? key with
    | some k => .keyed k (expression value)
    | none => .computed (expression value)
  | leaf .shorthandProperty text _ => .keyed text (.ofName text)
  | node .method (key :: _) =>
    match key? key with
    | some k => .keyed k .function
    | none => .computed .function
  | node .spread [e] => .spread (expression e)
  | t => .computed (.other t.kind.label)

/-- The entries of an object. -/
def entries : List Tree → List Entry
  | [] => []
  | t :: rest => entry t :: entries rest

end

end Statechart.Source.Tree
