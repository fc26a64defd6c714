import Statechart.Source.Grammar.Statements

/-!
# Reading source text

The tree of a file. Every text has one: what does not follow the grammar is passed over.
-/

namespace Statechart.Source

/-- Which expressions a file may hold. -/
inductive Dialect
  | plain
  /-- Elements between tags are expressions. -/
  | withElements
deriving DecidableEq, Repr

namespace Dialect

/-- The dialect of a file name's extension. -/
def ofExtension (extension : Option String) : Dialect :=
  if extension = some "tsx" || extension = some "jsx" then withElements else plain

end Dialect

namespace Tree

/-- How deep patterns can lie inside one another for each character of a text. -/
def patternDepth : Nat := 250

/-- The tree of a file. -/
def ofText (dialect : Dialect) (text : String) : Tree :=
  let surroundings := ⟨decide (dialect = .withElements), true⟩
  let fuel := patternDepth * (text.toList.length + 1)
  match (Pattern.phrase .program).run Grammar.grammar fuel surroundings (.start text) with
  | some ([t], _) => t
  | _ => .node .program []

end Tree

end Statechart.Source
