/-!
# Syntax trees

A file of TypeScript as a tree. A leaf carries the text it stands for and the line on which that
text begins. Comments, blanks and most punctuation leave no trace.
-/

namespace Statechart.Source

/-! ## 1. Kinds of nodes -/

/-- What a node of the tree is. -/
inductive Kind
  -- the file and its statements
  | program
  | importStatement
  | importAlias
  | importClause
  | namedImports
  | importSpecifier
  | namespaceImport
  | exportStatement
  | exportSpecifier
  | declaration
  | declarator
  | initializer
  | functionDeclaration
  | ambientDeclaration
  | classDeclaration
  | statement
  -- names
  | identifier
  | propertyName
  | shorthandProperty
  | shorthandPattern
  | labelName
  | typeName
  -- objects and arrays
  | object
  | pair
  | computedName
  | method
  | spread
  | array
  -- literals
  | string
  | stringFragment
  | escapeSequence
  | templateString
  | templateSubstitution
  | number
  | trueLiteral
  | falseLiteral
  | null
  | undefined
  | regex
  -- functions and classes
  | function
  | parameters
  | pattern
  | classExpression
  | classMember
  | decorator
  -- other expressions
  | member
  | subscript
  | call
  | arguments
  | typeArguments
  | instantiation
  | construction
  | asType
  | satisfies
  | nonNull
  | typeAssertion
  | parenthesized
  | sequence
  | unary
  | operator
  | update
  | binary
  | ternary
  | assignment
  | augmentedAssignment
  | awaitExpression
  | yieldExpression
  | thisWord
  | superWord
  | importWord
  | metaProperty
  | jsxElement
  | jsxSelfClosing
  | jsxPart
  -- types
  | literalType
  | type
deriving DecidableEq, Repr

namespace Kind

/-- The label under which an expression that cannot be looked into is reported. All other kinds
share one label, since they are looked into or are no expressions. -/
def label : Kind → String
  | spread => "spread_element"
  | stringFragment => "string_fragment"
  | escapeSequence => "escape_sequence"
  | templateString => "template_string"
  | templateSubstitution => "template_substitution"
  | regex => "regex"
  | classExpression => "class"
  | subscript => "subscript_expression"
  | instantiation => "instantiation_expression"
  | construction => "new_expression"
  | sequence => "sequence_expression"
  | unary => "unary_expression"
  | update => "update_expression"
  | binary => "binary_expression"
  | ternary => "ternary_expression"
  | assignment => "assignment_expression"
  | augmentedAssignment => "augmented_assignment_expression"
  | awaitExpression => "await_expression"
  | yieldExpression => "yield_expression"
  | thisWord => "this"
  | superWord => "super"
  | importWord => "import"
  | metaProperty => "meta_property"
  | jsxElement => "jsx_element"
  | jsxSelfClosing => "jsx_self_closing_element"
  | _ => "expression"

end Kind

/-! ## 2. Trees -/

/-- A syntax tree. -/
inductive Tree
  | leaf (kind : Kind) (text : String) (line : Nat)
  | node (kind : Kind) (children : List Tree)
deriving Repr

namespace Tree

/-- The kind of the topmost node. -/
def kind : Tree → Kind
  | leaf k _ _ => k
  | node k _ => k

/-- The trees right below the topmost node. -/
def children : Tree → List Tree
  | leaf _ _ _ => []
  | node _ ts => ts

/-- The text of a leaf; a node has none of its own. -/
def text : Tree → String
  | leaf _ s _ => s
  | node _ _ => ""

mutual

/-- The line on which the first leaf begins. -/
def line : Tree → Nat
  | leaf _ _ n => n
  | node _ ts => lineOfFirst ts

/-- The line on which the first of some trees begins. -/
def lineOfFirst : List Tree → Nat
  | [] => 0
  | t :: _ => line t

end

/-- The first child of a kind. -/
def child? (t : Tree) (k : Kind) : Option Tree := t.children.find? fun c => c.kind = k

end Tree

end Statechart.Source
