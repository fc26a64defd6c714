import Statechart.Assoc
import Statechart.Expression
import Statechart.Settings

/-!
# Scopes

What the names at the top of a file stand for: expressions, functions, or things imported from
another module. Names can be followed from one to the next for a bounded number of steps.
-/

namespace Statechart

/-! ## 1. Bindings -/

/-- What an imported name stands for in its module. -/
inductive Export
  | named (name : String)
  | default
  /-- The module as a whole. -/
  | namespace
deriving DecidableEq, Repr

/-- What a name stands for. -/
inductive Binding
  | value (e : Expression)
  | function
  | imported (module : String) (what : Export)
deriving Repr

/-- The bindings of a file. -/
abbrev Scope := Assoc Binding

namespace Scope

/-- What a name stands for. -/
def binding? (s : Scope) (name : String) : Option Binding := s.lookup name

/-- The module and the export that an imported name stands for. -/
def imported? (s : Scope) (name : String) : Option (String × Export) :=
  match s.binding? name with
  | some (.imported module what) => some (module, what)
  | _ => none

/-! ## 2. Following names -/

/-- Follows names through at most `hops` bindings. A name that is imported or unknown is left as
it is. -/
def follow (s : Scope) : (hops : Nat) → Expression → Expression
  | 0, e => e
  | hops + 1, e =>
    match e with
    | .name n =>
      match s.binding? n with
      | some (.value v) => s.follow hops v
      | some .function => .function
      | _ => e
    | _ => e

/-- The number of bindings that are followed at most. -/
def maxHops : Nat := 16

/-- The expression that stands at the end of the names. -/
def resolve (s : Scope) (e : Expression) : Expression := s.follow maxHops e

end Scope

/-! ## 3. Creators of actions -/

/-- What reading an expression may consult besides the expression. -/
structure Context where
  scope : Scope
  settings : Settings

namespace Context

/-- The exports of an action module that create actions. -/
def creatorNames : List String :=
  ["assign", "send", "sendParent", "sendUpdate", "sendTo", "raise", "respond", "forwardTo",
   "escalate", "log", "pure", "choose", "cancel", "start", "stop"]

/-- Whether an expression stands for an action module as a whole: a namespace import of one, its
export of that name, or that member of either. -/
def isActionNamespace (cx : Context) : Expression → Bool
  | .name local_ =>
    match cx.scope.imported? local_ with
    | some (module, .namespace) => cx.settings.isActionModule module
    | some (module, .named name) => name == "actions" && cx.settings.isActionModule module
    | _ => false
  | .member object property => property == "actions" && cx.isActionNamespace object
  | _ => false

/-- The name of the creator of actions that a callee stands for: an import of it by name, or a
member of an action module. -/
def creator? (cx : Context) (callee : Expression) : Option String :=
  let name? : Option String :=
    match callee with
    | .name local_ =>
      match cx.scope.imported? local_ with
      | some (module, .named name) =>
        if cx.settings.isActionModule module then some name else none
      | _ => none
    | .member object property => if cx.isActionNamespace object then some property else none
    | _ => none
  name?.filter creatorNames.contains

end Context

end Statechart
