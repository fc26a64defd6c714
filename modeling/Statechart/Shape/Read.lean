import Statechart.Number.Numeral
import Statechart.Scope
import Statechart.Shape.Definition
import Statechart.Value.Basic

/-!
# Reading expressions against shapes

Reading gives the value that an expression denotes at a position of some shape, or says that it is
not accepted there. It never fails in any other way. Objects and arrays are entered only so many
levels deep, since a name may stand for an object that contains the name.
-/

namespace Statechart

/-! ## 1. Outcomes -/

/-- The outcome of reading. -/
inductive Reading
  /-- The expression is not of the shape. -/
  | failed
  /-- There is nothing to keep. -/
  | absent
  | present (v : Value)
deriving Repr

namespace Reading

/-- The values among the readings of some things, in order; nothing once one of them failed. -/
def collect {α β : Type} (read : α → Reading) (keep : α → Value → β) :
    List α → Option (List β)
  | [] => some []
  | a :: rest =>
    match read a with
    | failed => none
    | absent => collect read keep rest
    | present v => (collect read keep rest).map (keep a v :: ·)

/-- What is present if there is a value, and failed otherwise. -/
def ofOption : Option Value → Reading
  | some v => present v
  | none => failed

end Reading

/-! ## 2. Entries of objects -/

namespace Entry

/-- The value under each key, the last one written, at the place of the first. There are none
where a key is computed or entries are taken over from elsewhere. -/
def keyed? (entries : List Entry) : Option (Assoc Expression) :=
  entries.foldlM (fun m entry =>
    match entry with
    | .keyed key value => some (Assoc.put key value m)
    | _ => none) []

end Entry

/-! ## 3. One level -/

namespace Shape

/-- A reader for what stands at a position; nothing stands there where a key is left out. -/
abbrev Reader := Shape → Option Expression → Reading

/-- Reads some items one level below. -/
def readItems (below : Reader) (element : Shape) (items : List Expression) :
    Option (List Value) :=
  Reading.collect (fun item => below element (some item)) (fun _ v => v) items

/-- Reads the fields one level below, in the order of the shape. -/
def readFields (below : Reader) (entries : Assoc Expression) (fields : List (String × Shape)) :
    Option (Assoc Value) :=
  Reading.collect (fun field => below field.2 (entries.lookup field.1))
    (fun field v => (field.1, v)) fields

/-- Reads the other keys one level below, in the order of the object. -/
def readOthers (below : Reader) (mode : Mode) (others : Option Shape)
    (entries : Assoc Expression) : Option (Assoc Value) :=
  Reading.collect
    (fun entry =>
      match others with
      | some shape => below shape (some entry.2)
      | none => if mode = .strict then .failed else .absent)
    (fun entry v => (entry.1, v)) entries

/-- Reads an object. -/
def readObject (below : Reader) (mode : Mode) (fields : List (String × Shape))
    (others : Option Shape) (entries : List Entry) : Option Value := do
  let entries ← Entry.keyed? entries
  let known ← readFields below entries fields
  let rest ← readOthers below mode others
    (entries.filter fun (key, _) => !fields.any fun (name, _) => name == key)
  return .object (known ++ rest)

/-- Reads a call to a creator of actions: its type, and for a choice the branches. -/
def readCreatorCall (below : Reader) (cx : Context) : Expression → Option Value
  | .call callee args =>
    match cx.creator? callee with
    | none => none
    | some name =>
      let type := ("type", Value.string ("xstate." ++ name))
      if name = "choose" then
        match below (.rule .branches) args.head? with
        | .present branches => some (.object [type, ("conds", branches)])
        | _ => none
      else some (.object [type])
  | _ => none

/-- Reads an expression at the end of its names against a shape that looks at what it is. -/
def readResolved (below : Reader) (cx : Context) : Shape → Expression → Option Value
  | .object fields others, .object entries =>
    readObject below cx.settings.mode fields others entries
  | .array element, .array items => (readItems below element items).map .array
  | .string none, .string s => some (.string s)
  | .string (some allowed), .string s => if allowed.contains s then some (.string s) else none
  | .bool, .bool b => some (.bool b)
  | .undefined, .undefined => some .undefined
  | .number, .number text => (Numeral.value? text).map .number
  | .function, .function => some .function
  | .creatorCall, e => readCreatorCall below cx e
  | .implementation, .function => some .function
  | .implementation, .name _ => some .function
  | .implementation, .member _ _ => some .function
  | .implementation, .call callee args => readCreatorCall below cx (.call callee args)
  | _, _ => none

mutual

/-- Reads against a shape, given the reader for rules and the one for the level below. -/
def readLevel (ofRule : Rule → Option Expression → Reading) (below : Reader) (cx : Context) :
    Shape → Option Expression → Reading
  | .optional inner, e =>
    match e with
    | none => .absent
    | some e => readLevel ofRule below cx inner (some e)
  | .ignored, _ => .absent
  | .rule r, e => ofRule r e
  | .oneOf alternatives, e => readFirst ofRule below cx alternatives e
  | shape, some e => .ofOption (readResolved below cx shape (cx.scope.resolve e))
  | _, none => .failed

/-- Reads against the first of some shapes that accepts. -/
def readFirst (ofRule : Rule → Option Expression → Reading) (below : Reader) (cx : Context) :
    List Shape → Option Expression → Reading
  | [], _ => .failed
  | shape :: rest, e =>
    match readLevel ofRule below cx shape e with
    | .failed => readFirst ofRule below cx rest e
    | reading => reading

end

/-! ## 4. All levels -/

/-- Reads against a shape when there are `levels` levels left, the one at hand included. -/
def read (cx : Context) : (levels : Nat) → Reader
  | 0 => fun _ _ => .failed
  | levels + 1 =>
    let below := read cx levels
    readLevel (fun r => readLevel (fun _ _ => .failed) below cx (ofRule r)) below cx

/-- How many objects and arrays may stand inside one another. -/
def maxNesting : Nat := 64

/-- Reads the definition of a machine. -/
def readDefinition (cx : Context) (e : Expression) : Reading :=
  read cx (maxNesting + 1) (.rule .state) (some e)

/-- Reads the provided implementations of a machine; they may be left out. -/
def readProvided (cx : Context) (e : Option Expression) : Reading :=
  read cx (maxNesting + 1) (.optional providedShape) e

end Shape

end Statechart
