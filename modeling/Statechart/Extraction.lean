import Statechart.Obstacle
import Statechart.Shape.Read
import Statechart.Source.Calls
import Statechart.Source.Reader
import Statechart.Value.Definition

/-!
# Machines of a file

Every machine that a file defines, in the order of the text. One machine that cannot be read rules
out the whole file.
-/

namespace Statechart

/-! ## 1. Machines and faults -/

/-- A machine as it is defined in a file. -/
structure DefinedMachine where
  id : String
  line : Nat
  tree : StateTree
  provided : Provided
  /-- The definition as a value, and so the provided implementations, if there are any. -/
  rawTree : Value
  rawProvided : Option Value
deriving Repr

/-- Why the machines of a file cannot be told. -/
inductive ExtractionError
  | call (e : Source.CallError)
  /-- A definition is not accepted. -/
  | unsupportedTree (machineId : String) (line : Nat) (reason : String)
  /-- The provided implementations are not accepted. -/
  | unsupportedProvided (machineId : String) (line : Nat) (reason : String)
  /-- A value describes no machine. -/
  | misfit (machineId : String) (m : Misfit)
deriving DecidableEq, Repr

namespace ExtractionError

/-- The sentence for a fault. -/
def message : ExtractionError → String
  | call e => e.message
  | unsupportedTree machineId line reason =>
    "could not statically extract the configuration of machine `" ++ machineId ++ "` on line " ++
      toString line ++ ": " ++ reason
  | unsupportedProvided machineId line reason =>
    "could not statically extract the options of machine `" ++ machineId ++ "` on line " ++
      toString line ++ ": " ++ reason
  | misfit machineId m => "machine `" ++ machineId ++ "`: " ++ m.message

end ExtractionError

/-! ## 2. One machine -/

namespace Source

/-- The words for what is not accepted and yet has no obstacle. -/
def unexplained : String := "does not match any supported configuration shape"

/-- Why an expression is not accepted: its first obstacle, if it has one. -/
def refusal (cx : Context) (allowReferences : Bool) (e : Expression) : String :=
  match Obstacle.find? cx allowReferences e with
  | some o => o.text
  | none => unexplained

/-- The machine that a call makes. -/
def MachineCall.machine (cx : Context) (call : MachineCall) :
    Except ExtractionError DefinedMachine := do
  let rawTree ←
    match Shape.readDefinition cx call.definition with
    | .present v => .ok v
    | _ => .error (.unsupportedTree call.machineId call.line (refusal cx false call.definition))
  let rawProvided ←
    match Shape.readProvided cx call.provided with
    | .present v => .ok (some v)
    | .absent => .ok none
    | .failed =>
      .error (.unsupportedProvided call.machineId call.line
        ((call.provided.map (refusal cx true)).getD unexplained))
  let fits {α : Type} (r : Value.Read α) : Except ExtractionError α :=
    r.mapError (.misfit call.machineId)
  let tree ← fits rawTree.readTree
  let provided ←
    match rawProvided with
    | some v => fits v.readProvided
    | none => .ok {}
  return { id := call.machineId, line := call.line, tree, provided, rawTree, rawProvided }

/-! ## 3. All machines -/

/-- The machines that a file with the syntax tree `t` defines. -/
def Tree.definedMachines (t : Tree) (settings : Settings) :
    Except ExtractionError (List DefinedMachine) := do
  let cx : Context := ⟨t.scope, settings⟩
  let calls ← (t.machineCalls settings).mapError .call
  calls.mapM (MachineCall.machine cx)

end Source

/-- The machines that a text defines. -/
def definedMachines (dialect : Source.Dialect) (settings : Settings) (text : String) :
    Except ExtractionError (List DefinedMachine) :=
  (Source.Tree.ofText dialect text).definedMachines settings

end Statechart
