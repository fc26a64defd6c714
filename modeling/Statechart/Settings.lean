import Statechart.Json.Basic

/-!
# Settings

Where machines come from and how strictly their definitions are read. Settings are written as a
JSON object; reading takes the defaults for what is left out and passes over members with other
names. An array of the members in their order is read as well.
-/

namespace Statechart

/-! ## 1. The record -/

/-- What becomes of keys that mean nothing where they stand. -/
inductive Mode
  /-- They are passed over. -/
  | permissive
  /-- They make the object unreadable. -/
  | strict
deriving DecidableEq, Repr

namespace Mode

/-- The word for a mode. -/
def word : Mode → String
  | permissive => "permissive"
  | strict => "strict"

/-- The mode of a word. -/
def ofWord? (word : String) : Option Mode := [permissive, strict].find? fun m => m.word == word

theorem ofWord?_word (m : Mode) : ofWord? m.word = some m := by cases m <;> rfl

end Mode

/-- The settings of a run. -/
structure Settings where
  mode : Mode := .permissive
  /-- The module that machine factories are imported from. -/
  importSource : String := "@xstate/compiled"
  /-- The names under which that module exports them. -/
  factoryNames : List String := ["Machine", "createMachine"]
  /-- The modules whose exports create actions. -/
  actionModules : List String := ["xstate", "@xstate/compiled", "xstate/lib/actions"]
deriving DecidableEq, Repr

namespace Settings

/-- The settings in another mode. -/
def withMode (s : Settings) (mode : Mode) : Settings := { s with mode }

/-- Whether an exported name is that of a machine factory. -/
def isFactory (s : Settings) (name : String) : Bool := s.factoryNames.contains name

/-- Whether a module exports creators of actions. -/
def isActionModule (s : Settings) (module : String) : Bool := s.actionModules.contains module

/-! ## 2. As JSON -/

/-- The JSON object of the settings. -/
def toJson (s : Settings) : Json :=
  .ofMembers [
    ("mode", .ofText s.mode.word),
    ("importSource", .ofText s.importSource),
    ("factoryNames", .ofTexts s.factoryNames),
    ("actionModules", .ofTexts s.actionModules)]

/-- A mode: its word, or an object with the word as the only name and null under it. -/
def readMode? : Json → Option Mode
  | .object [(name, .null)] => (JsonString.text? name).bind Mode.ofWord?
  | j => j.text?.bind Mode.ofWord?

/-- Reads the member of a name: the default where there is none, and nothing where there are
several. -/
def member? {α : Type} (members : List (String × Json)) (name : String)
    (read : Json → Option α) (default : α) : Option α :=
  match members.filter fun m => m.1 == name with
  | [] => some default
  | [(_, v)] => read v
  | _ => none

/-- The settings of an object's members. -/
def ofMembers? (members : List (String × Json)) : Option Settings := do
  let d : Settings := {}
  return {
    mode := ← member? members "mode" readMode? d.mode
    importSource := ← member? members "importSource" Json.text? d.importSource
    factoryNames := ← member? members "factoryNames" Json.texts? d.factoryNames
    actionModules := ← member? members "actionModules" Json.texts? d.actionModules }

/-- The names of the members, in the order that an array of them has. -/
def memberNames : List String := ["mode", "importSource", "factoryNames", "actionModules"]

/-- The settings of a JSON value. The names of an object must be texts; an array has at most as
many items as there are members. -/
def ofJson? : Json → Option Settings
  | .object members => do
    ofMembers? (← members.mapM fun (name, v) => do return (← JsonString.text? name, v))
  | .array items =>
    if items.length ≤ memberNames.length then ofMembers? (memberNames.zip items) else none
  | _ => none

end Settings

end Statechart
