/-!
# Provided implementations

The names that a machine brings an implementation for, in each of five categories. Only presence
matters: what an implementation does is never known.
-/

namespace Statechart

/-- The categories of named implementations. -/
inductive Handler
  | action
  | guard
  | service
  | activity
  | delay
deriving DecidableEq, Repr

namespace Handler

/-- The word for one member of a category. -/
def word : Handler → String
  | action => "action"
  | guard => "guard"
  | service => "service"
  | activity => "activity"
  | delay => "delay"

/-- The word for all members of a category. -/
def plural : Handler → String
  | action => "actions"
  | guard => "guards"
  | service => "services"
  | activity => "activities"
  | delay => "delays"

/-- All categories, in the order in which they are reported. -/
def all : List Handler := [action, guard, service, activity, delay]

/-- The category a plural stands for. -/
def ofPlural? (word : String) : Option Handler := all.find? fun h => h.plural == word

theorem mem_all (h : Handler) : h ∈ all := by cases h <;> simp [all]

end Handler

/-- For each category the provided names, each once, in order of first mention. -/
structure Provided where
  actions : List String := []
  guards : List String := []
  services : List String := []
  activities : List String := []
  delays : List String := []
deriving DecidableEq, Repr

namespace Provided

/-- The names of one category. -/
def names (p : Provided) : Handler → List String
  | .action => p.actions
  | .guard => p.guards
  | .service => p.services
  | .activity => p.activities
  | .delay => p.delays

/-- One name more at the end, unless it is there. -/
def addName (name : String) (names : List String) : List String :=
  if name ∈ names then names else names ++ [name]

/-- Provides one name more in a category. -/
def insert (p : Provided) (h : Handler) (name : String) : Provided :=
  match h with
  | .action => { p with actions := addName name p.actions }
  | .guard => { p with guards := addName name p.guards }
  | .service => { p with services := addName name p.services }
  | .activity => { p with activities := addName name p.activities }
  | .delay => { p with delays := addName name p.delays }

/-- Whether a name is provided in a category. -/
def provides (p : Provided) (h : Handler) (name : String) : Bool := (p.names h).contains name

@[simp] theorem names_insert_self (p : Provided) (h : Handler) (name : String) :
    (p.insert h name).names h = addName name (p.names h) := by cases h <;> rfl

theorem names_insert_ne {h h' : Handler} (hne : h' ≠ h) (p : Provided) (name : String) :
    (p.insert h name).names h' = p.names h' := by
  cases h <;> cases h' <;> simp_all [insert, names]

end Provided

end Statechart
