import Statechart.Shape.Basic

/-!
# The shapes of definitions

Which expressions describe a state machine and which its provided implementations. Five shapes of
states are tried in a fixed order: final, parallel and history states demand their type, and so
come before the compound and the atomic ones, which do not.
-/

namespace Statechart.Shape

/-! ## 1. Parts of a state -/

/-- A guard, a service or an activity. -/
def reference : Shape := oneOf [text, function, typed]

/-- One action or more. -/
def actions : Shape := oneOrMore (rule .action)

/-- The targets of a transition. -/
def targets : Shape := oneOf [undefined, oneOrMore text]

/-- One transition: its targets, or an object. -/
def transition : Shape :=
  oneOf [targets, object [
    ("target", optional targets),
    ("cond", optional reference),
    ("actions", optional actions),
    ("internal", optional bool),
    ("in", ignored),
    ("description", ignored),
    ("meta", ignored)] none]

/-- One transition or more. -/
def transitions : Shape := oneOrMore transition

/-- Transitions under keys. -/
def transitionMap : Shape := record transitions

/-- One service. -/
def service : Shape :=
  object [
    ("src", reference),
    ("id", optional text),
    ("onDone", optional transitions),
    ("onError", optional transitions),
    ("autoForward", optional bool),
    ("data", ignored)] none

/-! ## 2. States -/

/-- The fields that every state may have. -/
def commonFields : List (String × Shape) :=
  [("id", optional text),
   ("entry", optional actions),
   ("exit", optional actions),
   ("on", optional transitionMap),
   ("always", optional transitions),
   ("after", optional transitionMap),
   ("onDone", optional transitions),
   ("invoke", optional (oneOrMore service)),
   ("activities", optional (oneOrMore reference))]

/-- Keys of a state that have no bearing on its structure. -/
def metadata : List (String × Shape) :=
  ["context", "meta", "data", "description", "tags", "key", "strict", "schema",
   "preserveActionOrder", "predictableActionArguments"].map (·, ignored)

/-- A state with some fields of its own. -/
def stateWith (own : List (String × Shape)) : Shape :=
  object (commonFields ++ own ++ metadata) none

/-- The demand that a state has no children, so that a fault in a child never turns its parent
into a state without any. -/
def noStates : String × Shape := ("states", optional undefined)

/-- The states below a state. -/
def states : Shape := record (rule .state)

/-- A state that ends its parent. -/
def finalState : Shape := stateWith [("type", oneOfTexts ["final"]), noStates]

/-- A state whose children are all active at once. -/
def parallelState : Shape :=
  stateWith [("type", oneOfTexts ["parallel"]), ("states", optional states)]

/-- A state that stands for a former configuration of its parent. -/
def historyState : Shape :=
  stateWith [
    ("type", oneOfTexts ["history"]),
    ("history", optional (oneOf [oneOfTexts ["shallow", "deep"], bool])),
    ("target", optional text),
    noStates]

/-- A state of whose children one is active at a time. -/
def compoundState : Shape :=
  stateWith [
    ("type", optional (oneOfTexts ["compound"])),
    ("initial", optional text),
    ("states", states)]

/-- A state without states below it. -/
def atomicState : Shape := stateWith [("type", optional (oneOfTexts ["atomic"])), noStates]

/-! ## 3. Rules -/

/-- One branch of an action that chooses. -/
def branch : Shape := object [("cond", optional reference), ("actions", optional actions)] none

/-- The shape that a rule stands for. Rules occur in it only inside objects and arrays. -/
def ofRule : Rule → Shape
  | .state => oneOf [finalState, parallelState, historyState, compoundState, atomicState]
  | .action => oneOf [text, function, typed, creatorCall]
  | .branches => array branch

/-! ## 4. Provided implementations -/

/-- The provided implementations of a machine. -/
def providedShape : Shape :=
  object [
    ("actions", optional (record implementation)),
    ("guards", optional (record implementation)),
    ("services", optional (record implementation)),
    ("activities", optional (record implementation)),
    ("delays", optional (record (oneOf [number, implementation])))] (some ignored)

end Statechart.Shape
