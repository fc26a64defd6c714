import Statechart.Facts
import Statechart.Json.Writer
import Statechart.Number.Shortest
import Statechart.Settings
import Statechart.Value.Basic

/-!
# Facts as JSON

The JSON form of facts, provided names and values. Members come in a fixed order, and the keys of
states and values in their own.
-/

namespace Statechart

/-! ## 1. Numbers -/

/-- Numbers are written in full with at most sixteen digits before the point and at most four
zeros right after it. -/
def Binary64.style : DecimalStyle := ⟨16, 4⟩

/-- The text of a finite number: the fewest digits that read back. -/
def Binary64.text (x : Binary64) : String :=
  let digits :=
    if x.isZero then ['0', '.', '0'] else style.write (ShortDecimal.ofMagnitude x.magnitude)
  String.ofList (if x.negative then '-' :: digits else digits)

/-! ## 2. Values -/

namespace Value

mutual

/-- The JSON form of a value. What is undefined or no finite number is null. -/
def toJson : Value → Json
  | undefined => .null
  | bool b => .bool b
  | number x => if x.isFinite then .number x.text else .null
  | string s => .ofText s
  | array items => .array (itemsToJson items)
  | object entries => .object (entriesToJson entries)
  | function => .ofText "[function]"

/-- The JSON forms of some values. -/
def itemsToJson : List Value → List Json
  | [] => []
  | v :: rest => toJson v :: itemsToJson rest

/-- The members of the JSON form of an object. -/
def entriesToJson : List (String × Value) → List (JsonString × Json)
  | [] => []
  | (key, v) :: rest => (JsonString.ofText key, toJson v) :: entriesToJson rest

end

end Value

/-! ## 3. Names and tables -/

/-- The JSON form of provided names. -/
def Provided.toJson (p : Provided) : Json :=
  .ofMembers (Handler.all.map fun h => (h.plural, .ofTexts (p.names h)))

/-- The JSON form of a line. -/
def Line.toJson (l : Line) : Json :=
  .ofMembers [
    ("name", .ofText l.name),
    ("required", .bool l.required),
    ("events", .ofTexts l.events),
    ("states", .ofTexts l.states)]

/-- The JSON form of a table. -/
def Table.toJson (t : Table) : Json :=
  .ofMembers [("lines", .array (t.lines.map Line.toJson)), ("required", .bool t.required)]

/-! ## 4. States and facts -/

namespace StateFacts

mutual

/-- The JSON form of the facts of a state. -/
def toJson : StateFacts → Json
  | state targets sources children =>
    .ofMembers [
      ("targets", .ofTexts targets),
      ("sources", .ofTexts sources),
      ("states", .object (childrenToJson children))]

/-- The members for the states below a state. -/
def childrenToJson : List (String × StateFacts) → List (JsonString × Json)
  | [] => []
  | (key, f) :: rest => (JsonString.ofText key, toJson f) :: childrenToJson rest

end

end StateFacts

/-- The JSON form of all facts of a machine. -/
def Facts.toJson (f : Facts) : Json :=
  .ofMembers ([
    ("id", .ofText f.id),
    ("stateMatches", .ofTexts f.paths),
    ("subState", f.states.toJson)] ++
    Handler.all.map fun h => (h.plural, (f.table h).toJson))

end Statechart
