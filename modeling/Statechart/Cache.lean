import Statechart.Analysis

/-!
# Caches of analyses

A cache keeps the analyses of texts under their paths, in the order of the paths. A text is only
analysed if it differs from the one that is kept. A path under which nothing can be analysed is
dropped.
-/

namespace Statechart

/-! ## 1. Entries -/

/-- A text with its analyses, under the path at which it was first put. -/
structure CacheEntry where
  path : FilePath
  text : String
  analyses : List Analysis
deriving Repr

/-- The entries of a cache in ascending order of their paths, and the settings for all of them. -/
structure Cache where
  settings : Settings := {}
  entries : List CacheEntry := []
deriving Repr

namespace Cache

/-- The entry of a path. -/
def entry? (c : Cache) (path : FilePath) : Option CacheEntry :=
  c.entries.find? fun e => e.path.same path

/-- The analyses kept under a path. -/
def get? (c : Cache) (path : FilePath) : Option (List Analysis) :=
  (c.entry? path).map CacheEntry.analyses

/-- Puts an entry at its place; the spelling of a path that is there stays. -/
def place (e : CacheEntry) : List CacheEntry → List CacheEntry
  | [] => [e]
  | f :: rest =>
    match e.path.compare f.path with
    | .lt => e :: f :: rest
    | .eq => { e with path := f.path } :: rest
    | .gt => f :: place e rest

/-! ## 2. Operations -/

/-- Drops a path. -/
def drop (c : Cache) (path : FilePath) : Cache :=
  { c with entries := c.entries.filter fun e => !e.path.same path }

/-- Drops a path, and tells whether it was there. -/
def invalidate (c : Cache) (path : FilePath) : Bool × Cache :=
  ((c.entry? path).isSome, c.drop path)

/-- Drops everything. -/
def clear (c : Cache) : Cache := { c with entries := [] }

/-- Puts a text under a path and gives its analyses. -/
def insert (c : Cache) (path : FilePath) (text : String) :
    Except AnalysisError (List Analysis) × Cache :=
  match (c.entry? path).filter fun e => e.text = text with
  | some e => (.ok e.analyses, c)
  | none =>
    match Analysis.ofText path.dialect c.settings text with
    | .ok analyses =>
      (.ok analyses, { c with entries := place ⟨path, text, analyses⟩ c.entries })
    | .error e => (.error e, c.drop path)

/-- Reads a file anew and gives its analyses. -/
def refresh (c : Cache) (files : Files) (path : FilePath) :
    Except AnalysisError (List Analysis) × Cache :=
  match files.read path with
  | .ok text => c.insert path text
  | .error e => (.error e, c.drop path)

/-- All analyses with their paths, by path and then by place in the file. -/
def machines (c : Cache) : List (FilePath × Analysis) :=
  c.entries.flatMap fun e => e.analyses.map (e.path, ·)

end Cache

end Statechart
