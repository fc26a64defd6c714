import Statechart.Text.Pieces

/-!
# Dotted names

A path of keys is written with dots between the keys. `join` writes a path and `segments` cuts a
text at its dots.
-/

namespace Statechart.Dotted

/-- The keys a dotted text names; the empty text names the one empty key. -/
def segments (text : String) : List String :=
  (Text.pieces '.' text.toList).map String.ofList

/-- The dotted text of a path; the empty path has the empty text. -/
def join (keys : List String) : String :=
  String.ofList (List.intercalate ['.'] (keys.map String.toList))

@[simp] theorem join_nil : join [] = "" := rfl

/-- The first character of a text and what follows it. -/
def uncons? (text : String) : Option (Char × String) :=
  match text.toList with
  | [] => none
  | c :: rest => some (c, String.ofList rest)

end Statechart.Dotted
