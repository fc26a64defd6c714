import Statechart.Number.Numeral
import Statechart.Text.Blank

/-!
# Events

What a transition waits for, and the type under which a handler sees it. A delay is a number of
milliseconds or a name; which of the two a key means is read off its text.
-/

namespace Statechart

/-! ## 1. Delays -/

/-- How long a delayed transition waits. -/
inductive Delay
  /-- A number of milliseconds that fits 64 bits. -/
  | millis (count : Nat)
  /-- A delay supplied under a name. -/
  | named (name : String)
deriving DecidableEq, Repr

namespace Delay

/-- A key is a number where, blanks at its ends apart, it is a run of digits, with or without a
plus in front, that fits 64 bits; any other key is a name. -/
def ofKey (key : String) : Delay :=
  let core := Text.trim key.toList
  let digits := match core with
    | '+' :: rest => rest
    | cs => cs
  match Numeral.natural? 10 digits with
  | some n => if Numeral.fitsWord n then millis n else named key
  | none => named key

/-- The text of a delay. -/
def text : Delay → String
  | millis n => toString n
  | named name => name

end Delay

/-! ## 2. Events -/

/-- What a transition waits for. -/
inductive Event
  | named (name : String)
  /-- Nothing: the transition is taken as soon as its guard holds. -/
  | always
  /-- The end of a delay in the state of the given id. -/
  | after (delay : Delay) (state : String)
  /-- The completion of the state of the given id. -/
  | doneState (id : String)
  /-- The completion of a service. -/
  | doneInvoke (id : String)
  /-- The failure of a service. -/
  | errorInvoke (id : String)
deriving DecidableEq, Repr

namespace Event

/-- The type under which handlers see the event; a transition that waits for nothing has the
empty one. -/
def type : Event → String
  | named name => name
  | always => ""
  | after delay state => "xstate.after(" ++ delay.text ++ ")#" ++ state
  | doneState id => "done.state." ++ id
  | doneInvoke id => "done.invoke." ++ id
  | errorInvoke id => "error.platform." ++ id

end Event

end Statechart
