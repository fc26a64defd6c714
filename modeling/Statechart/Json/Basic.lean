import Statechart.Text.CodePoint

/-!
# JSON data

JSON values with numbers as written and members in order, repeated ones included. A JSON string is
a sequence of code points in which a surrogate may stand alone, so that it need not be a text.
-/

namespace Statechart

/-! ## 1. Strings -/

/-- The code points of a JSON string. Surrogates stand for themselves where they form no pair. -/
abbrev JsonString := List Nat

namespace JsonString

/-- The code points of a text. -/
def ofText (s : String) : JsonString := s.toList.map Char.toNat

/-- The text of a string, where no surrogate stands alone. -/
def text? (codes : JsonString) : Option String := (codes.mapM Text.char?).map String.ofList

theorem text?_ofText (s : String) : text? (ofText s) = some s := by
  have h : ∀ cs : List Char, (cs.map Char.toNat).mapM Text.char? = some cs := by
    intro cs
    induction cs with
    | nil => rfl
    | cons c cs ih => simp [Text.char?_toNat, ih]
  simp [text?, ofText, h]

end JsonString

/-! ## 2. Values -/

/-- A JSON value. -/
inductive Json
  | null
  | bool (b : Bool)
  /-- A number as written. -/
  | number (text : String)
  | string (codes : JsonString)
  | array (items : List Json)
  /-- The members in order; a name may be repeated. -/
  | object (members : List (JsonString × Json))
deriving Repr

namespace Json

/-- The JSON string of a text. -/
def ofText (s : String) : Json := string (JsonString.ofText s)

/-- The JSON array of some texts. -/
def ofTexts (ss : List String) : Json := array (ss.map ofText)

/-- The JSON object of some members named by texts. -/
def ofMembers (members : List (String × Json)) : Json :=
  object (members.map fun (k, v) => (JsonString.ofText k, v))

/-- The text of a string. -/
def text? : Json → Option String
  | string codes => JsonString.text? codes
  | _ => none

/-- The texts of an array of strings. -/
def texts? : Json → Option (List String)
  | array items => items.mapM text?
  | _ => none

@[simp] theorem text?_ofText (s : String) : (ofText s).text? = some s := JsonString.text?_ofText s

@[simp] theorem texts?_ofTexts (ss : List String) : (ofTexts ss).texts? = some ss := by
  have h : ∀ ss : List String, (ss.map ofText).mapM text? = some ss := by
    intro ss
    induction ss with
    | nil => rfl
    | cons s ss ih => simp [ih]
  exact h ss

end Json

end Statechart
