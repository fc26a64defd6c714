import Statechart.Scope
import Statechart.Source.Expression

/-!
# Bindings of a file

The names that the statements right below the top of a file bind: variables with an initial value,
functions with a body, and imports. A later binding of a name replaces an earlier one. What is
taken apart binds nothing here, nor does what is only announced.
-/

namespace Statechart.Source.Tree

/-! ## 1. Variables -/

/-- The binding of one declared variable. -/
def variableBinding? : Tree → Option (String × Binding)
  | node .declarator (leaf .identifier name _ :: rest) =>
    match rest.find? fun t => t.kind = .initializer with
    | some (node _ (value :: _)) => some (name, .value (expression value))
    | _ => none
  | _ => none

/-! ## 2. Imports -/

/-- The name that a tree in a list of imports stands for. -/
def exportName : Tree → String
  | node .string parts => stringText parts
  | t => t.text

/-- The bindings of a part of an import clause. -/
def clauseBindings (module : String) : Tree → List (String × Binding)
  | leaf .identifier name _ => [(name, .imported module .default)]
  | node .namespaceImport (t :: _) => [(t.text, .imported module .namespace)]
  | node .namedImports specifiers =>
    specifiers.filterMap fun t =>
      match t.children with
      | [name] => some (name.text, .imported module (.named (exportName name)))
      | [name, renamed] => some (renamed.text, .imported module (.named (exportName name)))
      | _ => none
  | _ => []

/-- The bindings of an import. -/
def importBindings (parts : List Tree) : List (String × Binding) :=
  match parts.find? (fun t => t.kind = .string), parts.find? (fun t => t.kind = .importClause) with
  | some source, some clause =>
    clause.children.flatMap (clauseBindings (stringText source.children))
  | _, _ => []

/-! ## 3. Statements -/

/-- The bindings of a statement that is no export. -/
def ownBindings : Tree → List (String × Binding)
  | node .importStatement parts => importBindings parts
  | node .declaration declarators => declarators.filterMap variableBinding?
  | node .functionDeclaration (name :: _) => [(name.text, .function)]
  | _ => []

/-- The bindings of a statement; an export binds what it declares. -/
def bindings : Tree → List (String × Binding)
  | node .exportStatement parts =>
    parts.flatMap fun t => if t.kind = .importStatement then [] else ownBindings t
  | t => ownBindings t

/-- The scope of a file. -/
def scope (t : Tree) : Scope := Assoc.ofList (t.children.flatMap bindings)

end Statechart.Source.Tree
