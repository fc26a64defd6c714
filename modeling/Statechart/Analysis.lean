import Statechart.Extraction
import Statechart.Facts
import Statechart.FilePath
import Statechart.Graph.Build

/-!
# Analyses

A machine of a file from its definition to the facts about its graph.
-/

namespace Statechart

/-! ## 1. Faults -/

/-- Why a file cannot be read as text. -/
inductive ReadFault
  | notFound
  | notADirectory
  | isADirectory
  | notText
deriving DecidableEq, Repr

namespace ReadFault

/-- The words for a fault. -/
def text : ReadFault → String
  | notFound => "No such file or directory (os error 2)"
  | notADirectory => "Not a directory (os error 20)"
  | isADirectory => "Is a directory (os error 21)"
  | notText => "stream did not contain valid UTF-8"

end ReadFault

/-- Why a file cannot be analysed. -/
inductive AnalysisError
  | extraction (e : ExtractionError)
  /-- A definition is no state machine. -/
  | build (machineId : String) (e : BuildError)
  /-- The file cannot be read. -/
  | read (path : FilePath) (fault : ReadFault)
deriving DecidableEq, Repr

namespace AnalysisError

/-- The sentence for a fault. -/
def message : AnalysisError → String
  | extraction e => e.message
  | build machineId e => "machine `" ++ machineId ++ "` is not a valid state tree: " ++ e.message
  | read path fault => "failed to read `" ++ path.spelling ++ "`: " ++ fault.text

end AnalysisError

/-! ## 2. Analyses -/

/-- A machine with its graph and the facts about it. -/
structure Analysis where
  machine : DefinedMachine
  graph : Graph
  facts : Facts
deriving Repr

namespace Analysis

/-- The id of the machine. -/
def id (a : Analysis) : String := a.machine.id

/-- The analysis of a machine. -/
def ofMachine (m : DefinedMachine) : Except AnalysisError Analysis :=
  match Graph.ofTree? m.tree m.provided with
  | .ok graph => .ok { machine := m, graph, facts := .ofGraph graph m.id }
  | .error e => .error (.build m.id e)

/-- The analyses of the machines in a file with the syntax tree `t`. -/
def ofTree (settings : Settings) (t : Source.Tree) : Except AnalysisError (List Analysis) := do
  let machines ← (t.definedMachines settings).mapError .extraction
  machines.mapM ofMachine

/-- The analyses of the machines in a text. -/
def ofText (dialect : Source.Dialect) (settings : Settings) (text : String) :
    Except AnalysisError (List Analysis) :=
  ofTree settings (Source.Tree.ofText dialect text)

end Analysis

/-- What reading each path gives. -/
abbrev Files := FilePath → Except ReadFault String

namespace Files

/-- The text at a path. -/
def read (files : Files) (path : FilePath) : Except AnalysisError String :=
  (files path).mapError (.read path)

/-- The analyses of the machines in a file, whose extension gives its dialect. -/
def analyses (files : Files) (settings : Settings) (path : FilePath) :
    Except AnalysisError (List Analysis) := do
  Analysis.ofText path.dialect settings (← files.read path)

end Files

end Statechart
