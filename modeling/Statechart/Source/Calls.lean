import Statechart.Source.Bindings

/-!
# Calls of machine factories

Every machine of a file is made by a call of an imported factory, with the machine's id as third
type argument. Calls are found in the order of the text, nested ones included. A factory that is
used in any other way would hide a machine, and is reported.
-/

namespace Statechart.Source

/-! ## 1. Calls and faults -/

/-- The call that makes a machine. -/
structure MachineCall where
  /-- The name of the factory in the file. -/
  callee : String
  machineId : String
  definition : Expression
  provided : Option Expression
  line : Nat
deriving Repr

/-- Why the calls of a file cannot be told. -/
inductive CallError
  /-- The module of the factories is imported as a whole. -/
  | namespaceImport (name module : String)
  /-- A factory is used without being called. -/
  | factoryNotCalled (name : String) (line : Nat)
  /-- A call gives no string as third type argument. -/
  | missingMachineId (callee : String) (line : Nat)
  /-- A call has no argument. -/
  | missingDefinition (machineId : String) (line : Nat)
deriving DecidableEq, Repr

namespace CallError

/-- The sentence for a fault. -/
def message : CallError → String
  | namespaceImport name module =>
    "`import * as " ++ name ++ " from '" ++ module ++
      "'` is not supported, import the machine factory by name"
  | factoryNotCalled name line =>
    "`" ++ name ++ "` on line " ++ toString line ++ " can only be called"
  | missingMachineId callee line =>
    "machine on line " ++ toString line ++
      " has no id: pass a string literal as the third type argument, e.g. `const machine = " ++
      callee ++ "<Context, Event, 'aUniqueIdForYourMachine'>(\x7b\x7d)`"
  | missingDefinition machineId line =>
    "machine `" ++ machineId ++ "` on line " ++ toString line ++
      " is called without a configuration"

end CallError

/-! ## 2. Factories -/

/-- The name under which a scope imports a module as a whole. -/
def namespaceAlias? (scope : Scope) (module : String) : Option String :=
  (scope.find? fun (_, b) =>
    match b with
    | .imported m .namespace => m = module
    | _ => false).map Prod.fst

/-- The names that a scope imports factories by. -/
def factories (scope : Scope) (settings : Settings) : List String :=
  scope.filterMap fun (name, b) =>
    match b with
    | .imported m (.named exported) =>
      if m = settings.importSource && settings.isFactory exported then some name else none
    | _ => none

/-! ## 3. Calls -/

namespace Tree

/-- The text of a type that is a single string. -/
def stringType? : Tree → Option String
  | node .literalType (node .string parts :: _) => some (stringText parts)
  | _ => none

/-- The third type argument among the parts of a call, if it is a string. -/
def machineId? (parts : List Tree) : Option String :=
  (parts.find? fun t => t.kind = .typeArguments).bind fun t => (t.children[2]?).bind stringType?

/-- The arguments among the parts of a call; those of a tagged template are its parts. -/
def callArguments (parts : List Tree) : List Expression :=
  match parts.find? fun t => t.kind = .arguments ∨ t.kind = .templateString with
  | some t => expressions t.children
  | none => []

/-- The call of a factory, from what stands after its name. -/
def machineCall (callee : String) (line : Nat) (parts : List Tree) :
    Except CallError MachineCall :=
  match machineId? parts with
  | none => .error (.missingMachineId callee line)
  | some machineId =>
    match callArguments parts with
    | [] => .error (.missingDefinition machineId line)
    | definition :: rest => .ok { callee, machineId, definition, provided := rest.head?, line }

mutual

/-- The factory calls in a tree. -/
def callsIn (factories : List String) : Tree → Except CallError (List MachineCall)
  | node .importStatement _ => .ok []
  | node .call (leaf .identifier name line :: parts) =>
    if factories.contains name then do
      let call ← machineCall name line parts
      return call :: (← callsInAll factories parts)
    else callsInAll factories parts
  | node _ ts => callsInAll factories ts
  | leaf kind text line =>
    if (kind = .identifier ∨ kind = .shorthandProperty) ∧ factories.contains text then
      .error (.factoryNotCalled text line)
    else .ok []

/-- The factory calls in some trees. -/
def callsInAll (factories : List String) : List Tree → Except CallError (List MachineCall)
  | [] => .ok []
  | t :: rest => do
    let calls ← callsIn factories t
    return calls ++ (← callsInAll factories rest)

end

/-- The factory calls of a file. -/
def machineCalls (t : Tree) (settings : Settings) : Except CallError (List MachineCall) :=
  match namespaceAlias? t.scope settings.importSource with
  | some name => .error (.namespaceImport name settings.importSource)
  | none =>
    match factories t.scope settings with
    | [] => .ok []
    | names => callsIn names t

end Tree

end Statechart.Source
