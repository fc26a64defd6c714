import Statechart.Source.Reader
import Statechart.Text.Pieces

/-!
# Paths of files

A path is compared by its components, so that different spellings may name the same file. Repeated
separators mean nothing, nor does a single dot, save at the very front.
-/

namespace Statechart

/-! ## 1. Components -/

/-- One step of a path. -/
inductive PathComponent
  | root
  | current
  | parent
  | name (s : String)
deriving DecidableEq, Repr

namespace PathComponent

/-- The order of steps of different sorts. -/
def rank : PathComponent → Nat
  | root => 0
  | current => 1
  | parent => 2
  | name _ => 3

/-- The text that tells names apart. -/
def text : PathComponent → String
  | name s => s
  | _ => ""

/-- The order of components: by sort, and names by their texts. -/
def compare (a b : PathComponent) : Ordering :=
  (Ord.compare a.rank b.rank).then (Ord.compare a.text b.text)

end PathComponent

/-! ## 2. Paths -/

/-- A path as spelled. -/
structure FilePath where
  spelling : String
deriving DecidableEq, Repr

namespace FilePath

/-- The pieces of a path between its separators. -/
def pieces (p : FilePath) : List (List Char) := Text.pieces '/' p.spelling.toList

/-- The step that a piece means; empty ones and single dots mean none. -/
def step? (piece : List Char) : Option PathComponent :=
  if piece = [] ∨ piece = ['.'] then none
  else if piece = ['.', '.'] then some .parent
  else some (.name (String.ofList piece))

/-- The components of a path. -/
def components (p : FilePath) : List PathComponent :=
  match p.pieces with
  | [] => []
  | [[]] => []
  | first :: rest =>
    let start :=
      if first = [] then [.root] else if first = ['.'] then [.current] else (step? first).toList
    start ++ rest.filterMap step?

/-- The order of lists of components: by the first that differs, a beginning before the whole. -/
def compareComponents : List PathComponent → List PathComponent → Ordering
  | [], [] => .eq
  | [], _ => .lt
  | _, [] => .gt
  | a :: as, b :: bs => (a.compare b).then (compareComponents as bs)

/-- The order of paths. -/
def compare (p q : FilePath) : Ordering := compareComponents p.components q.components

/-- Whether two paths are spellings of the same one. -/
def same (p q : FilePath) : Bool := p.components = q.components

/-- What follows the last dot of a name, unless that dot is its first character. -/
def extensionOf (name : List Char) : Option String :=
  let reversed := name.reverse
  let ending := reversed.takeWhile fun c => c != '.'
  match reversed.drop ending.length with
  | '.' :: _ :: _ => some (String.ofList ending.reverse)
  | _ => none

/-- The extension of the file that a path ends with. -/
def extension (p : FilePath) : Option String :=
  match p.components.getLast? with
  | some (.name s) => extensionOf s.toList
  | _ => none

/-- The dialect of the file, by its extension. -/
def dialect (p : FilePath) : Source.Dialect := .ofExtension p.extension

end FilePath

end Statechart
