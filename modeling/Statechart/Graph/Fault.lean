import Statechart.Definition

/-!
# Faults of a definition

Why a definition is no state machine, and the sentence that tells it.
-/

namespace Statechart

/-- A reason for which no graph can be built. -/
inductive BuildError
  /-- The initial state named by a compound state is none of its children. -/
  | unknownInitial (state initial : String)
  /-- The target of a transition names no state. -/
  | unresolvedTarget (state event target : String)
  /-- The default target of a history state names no state. -/
  | unresolvedHistoryTarget (state target : String)
  /-- Two states have one id. -/
  | duplicateId (id : String)
  /-- States stand below a state whose kind allows none. -/
  | unexpectedChildren (state : String) (kind : StateKind)
deriving DecidableEq, Repr

namespace BuildError

/-- The sentence for a fault. -/
def message : BuildError → String
  | unknownInitial state initial =>
    "state `" ++ state ++ "` declares initial state `" ++ initial ++
      "`, which is not one of its children"
  | unresolvedTarget state event target =>
    "transition `" ++ event ++ "` of state `" ++ state ++ "` targets `" ++ target ++
      "`, which does not resolve to a state"
  | unresolvedHistoryTarget state target =>
    "history state `" ++ state ++ "` defaults to `" ++ target ++
      "`, which does not resolve to a state"
  | duplicateId id => "state id `" ++ id ++ "` is declared more than once"
  | unexpectedChildren state kind =>
    kind.word ++ " state `" ++ state ++ "` cannot declare child states"

end BuildError

end Statechart
