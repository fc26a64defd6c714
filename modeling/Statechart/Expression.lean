/-!
# Expressions

The expressions a definition may be written with, as far as they can be looked into without
running anything. Everything else is kept only as the kind of construct it is.
-/

namespace Statechart

/-! ## 1. The type -/

mutual

/-- An expression. -/
inductive Expression
  | object (entries : List Entry)
  | array (items : List Expression)
  | string (s : String)
  /-- A number as written. -/
  | number (text : String)
  | bool (b : Bool)
  | undefined
  | null
  /-- Any function; its body is never looked at. -/
  | function
  /-- A variable. -/
  | name (n : String)
  /-- A property of an object. -/
  | member (inner : Expression) (property : String)
  | call (callee : Expression) (args : List Expression)
  /-- A construct of some other kind. -/
  | other (kind : String)
deriving Repr

/-- What is written between the braces of an object. -/
inductive Entry
  /-- A value under a key that is written out. -/
  | keyed (key : String) (value : Expression)
  /-- A value under a key that is computed. -/
  | computed (value : Expression)
  /-- All entries of another object. -/
  | spread (value : Expression)
deriving Repr

end

namespace Expression

/-! ## 2. Descriptions -/

/-- The words for a kind of construct: its label with blanks for underscores. -/
def spaced (kind : String) : String :=
  String.ofList (kind.toList.map fun c => if c = '_' then ' ' else c)

/-- A short description of an expression. -/
def describe : Expression → String
  | object _ => "object"
  | array _ => "array"
  | string s => "'" ++ s ++ "'"
  | number text => text
  | bool b => if b then "true" else "false"
  | undefined => "undefined"
  | null => "null"
  | function => "function"
  | name n => n
  | member inner property => describe inner ++ "." ++ property
  | call callee _ => describe callee ++ "(...)"
  | other kind => spaced kind

/-- The variable of a name, save that one name always means the undefined value. -/
def ofName (n : String) : Expression := if n = "undefined" then undefined else name n

end Expression

end Statechart
