import Statechart.Analysis

/-!
# Files kept in memory

A tree of directories and files below a working directory. Paths are followed step by step; what
lies outside of the working directory is a directory about which nothing else is known.
-/

namespace Statechart

/-! ## 1. Contents -/

/-- What stands at a place. -/
inductive FileContent
  | directory
  | bytes (data : List UInt8)
deriving DecidableEq, Repr

/-- What stands at the places below the working directory, each given by its names. -/
structure FileStore where
  contents : List (List String × FileContent) := []
deriving Repr

namespace FileStore

/-- What stands at a place; the working directory itself is a directory. -/
def content? (s : FileStore) (place : List String) : Option FileContent :=
  if place.isEmpty then some .directory else s.contents.lookup place

/-! ## 2. Following paths -/

/-- Where a path leads. -/
inductive Location
  /-- Some steps above the working directory. -/
  | outside
  | at (place : List String)
deriving DecidableEq, Repr

/-- One step from a place. -/
def follow (s : FileStore) : Location → PathComponent → Except ReadFault Location
  | _, .root => .ok .outside
  | l, .current => .ok l
  | .outside, .parent => .ok .outside
  | .outside, .name _ => .error .notFound
  | .at place, step =>
    match s.content? place with
    | none => .error .notFound
    | some (.bytes _) => .error .notADirectory
    | some .directory =>
      match step with
      | .name n => .ok (.at (place ++ [n]))
      | _ => if place.isEmpty then .ok .outside else .ok (.at place.dropLast)

/-- Where a path leads. -/
def locate (s : FileStore) (path : FilePath) : Except ReadFault Location :=
  match path.components with
  | [] => .error .notFound
  | steps => steps.foldlM s.follow (.at [])

/-- Whether a path ends in a way that only a directory can be meant. -/
def wantsDirectory (path : FilePath) : Bool :=
  match path.pieces.getLast? with
  | some piece => piece = [] || piece = ['.']
  | none => false

/-- The text of a file. -/
def files (s : FileStore) : Files := fun path => do
  match ← s.locate path with
  | .outside => .error .isADirectory
  | .at place =>
    match s.content? place with
    | none => .error .notFound
    | some .directory => .error .isADirectory
    | some (.bytes data) =>
      if wantsDirectory path then .error .notADirectory
      else
        match String.fromUTF8? ⟨data.toArray⟩ with
        | some text => .ok text
        | none => .error .notText

/-! ## 3. Changes -/

/-- The place a path leads to below the working directory. -/
def place? (s : FileStore) (path : FilePath) : Option (List String) :=
  match s.locate path with
  | .ok (.at place) => some place
  | _ => none

/-- Puts something at the place a path leads to. -/
def put (s : FileStore) (path : FilePath) (content : FileContent) : FileStore :=
  match s.place? path with
  | some place => ⟨(place, content) :: s.contents.filter fun e => e.1 != place⟩
  | none => s

/-- Writes a file. -/
def write (s : FileStore) (path : FilePath) (data : List UInt8) : FileStore :=
  s.put path (.bytes data)

/-- Writes a file of text. -/
def writeText (s : FileStore) (path : FilePath) (text : String) : FileStore :=
  s.write path text.toUTF8.toList

/-- Makes a directory and those that it lies in. -/
def makeDirectory (s : FileStore) (path : FilePath) : FileStore :=
  let names := path.components.filterMap fun c =>
    match c with
    | .name n => some n
    | _ => none
  ((List.range (names.length + 1)).map names.take).foldl (fun s place =>
    if place.isEmpty || (s.content? place).isSome then s
    else ⟨(place, .directory) :: s.contents⟩) s

/-- Removes what stands at the place a path leads to, and all below it. -/
def remove (s : FileStore) (path : FilePath) : FileStore :=
  match s.place? path with
  | some place => ⟨s.contents.filter fun e => !place.isPrefixOf e.1⟩
  | none => s

end FileStore

end Statechart
