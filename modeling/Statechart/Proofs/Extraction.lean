import Statechart.Extraction
import Statechart.Proofs.Value.Misfit

/-!
# Misfits of machines

A machine whose definition is accepted need not describe a state tree: a definition may say that
the states below some state are undefined. Main statement: that is the only misfit there is, in any
file.
-/

namespace Statechart

/-! ## 1. One machine -/

namespace Source

/-- What is left to do once both values are read. -/
def MachineCall.describe (call : MachineCall) (rawTree : Value) (rawProvided : Option Value) :
    Except ExtractionError DefinedMachine := do
  let tree ← rawTree.readTree.mapError (.misfit call.machineId)
  let provided ←
    (rawProvided.elim (.ok {}) Value.readProvided).mapError (.misfit call.machineId)
  return { id := call.machineId, line := call.line, tree, provided, rawTree, rawProvided }

/-- A machine whose values are both read is described from them. -/
theorem MachineCall.machine_eq {cx : Context} {call : MachineCall} {v : Value}
    (hv : Shape.readDefinition cx call.definition = .present v) :
    call.machine cx =
      match Shape.readProvided cx call.provided with
      | .present w => call.describe v (some w)
      | .absent => call.describe v none
      | .failed => .error (.unsupportedProvided call.machineId call.line
          ((call.provided.map (refusal cx true)).getD unexplained)) := by
  unfold MachineCall.machine
  rw [hv]
  cases Shape.readProvided cx call.provided <;> rfl

/-- Where the provided implementations are read, any misfit is one of the definition. -/
theorem MachineCall.misfit_of_describe {call : MachineCall} {v : Value} {o : Option Value}
    (ho : ∃ p, o.elim (.ok {}) Value.readProvided = .ok p) {id : String} {m : Misfit}
    (h : call.describe v o = .error (.misfit id m)) :
    call.machineId = id ∧ v.readTree = .error m := by
  rcases Outcome.bind_eq_error.1 h with h | ⟨t, -, h⟩
  · obtain ⟨m', hm', he⟩ := Outcome.mapError_eq_error.1 h
    obtain ⟨rfl, rfl⟩ := ExtractionError.misfit.inj he
    exact ⟨rfl, hm'⟩
  · obtain ⟨p, hp⟩ := ho
    rw [hp] at h
    cases h

/-- **A misfit of a machine is one of its definition**; provided implementations have none. -/
theorem MachineCall.misfit_of_machine {cx : Context} {call : MachineCall} {id : String}
    {m : Misfit} (h : call.machine cx = .error (.misfit id m)) :
    call.machineId = id ∧ ∃ v, Shape.readDefinition cx call.definition = .present v ∧
      v.readTree = .error m := by
  cases hv : Shape.readDefinition cx call.definition with
  | failed =>
    unfold MachineCall.machine at h
    rw [hv] at h
    cases h
  | absent =>
    unfold MachineCall.machine at h
    rw [hv] at h
    cases h
  | present v =>
    rw [machine_eq hv] at h
    have hnone : ∃ p, (none : Option Value).elim (.ok {}) Value.readProvided = .ok p := ⟨_, rfl⟩
    split at h
    · next w hw =>
      have hread := Value.readProvided_of_fits (Shape.fits_of_readProvided hw)
      obtain ⟨hid, hm⟩ := misfit_of_describe (o := some w) hread h
      exact ⟨hid, v, rfl, hm⟩
    · obtain ⟨hid, hm⟩ := misfit_of_describe hnone h
      exact ⟨hid, v, rfl, hm⟩
    · cases h

theorem MachineCall.tree_of_describe {call : MachineCall} {v : Value} {o : Option Value}
    {dm : DefinedMachine} (h : call.describe v o = .ok dm) : v.readTree = .ok dm.tree := by
  obtain ⟨t, ht, h⟩ := Outcome.bind_eq_ok.1 h
  obtain ⟨p, -, h⟩ := Outcome.bind_eq_ok.1 h
  obtain rfl := Except.ok.inj h
  exact Outcome.mapError_eq_ok.1 ht

/-- The tree of a machine is read from its definition. -/
theorem MachineCall.tree_of_machine {cx : Context} {call : MachineCall} {v : Value}
    (hv : Shape.readDefinition cx call.definition = .present v) {dm : DefinedMachine}
    (h : call.machine cx = .ok dm) : v.readTree = .ok dm.tree := by
  rw [machine_eq hv] at h
  split at h
  · exact tree_of_describe h
  · exact tree_of_describe h
  · cases h

end Source

/-! ## 2. All machines -/

/-- **Definitions are misfits for one reason only.** A definition that is accepted fails to describe
a state tree just where it says of the states below some state that they are undefined. Where a file
has a misfit, one of its machines has such states, and an object is asked for there; and no file with
such states has its machines told. A file is any syntax tree here, that of a text among them. -/
theorem misfits_of_definitions (settings : Settings) :
    (∀ (scope : Scope) (e : Expression) (v : Value),
      Shape.readDefinition ⟨scope, settings⟩ e = .present v →
        ((∃ m, v.readTree = .error m) ↔ ∃ path, v.StatesUndefined path)) ∧
    (∀ (t : Source.Tree) (id : String) (m : Misfit),
      t.definedMachines settings = .error (.misfit id m) →
        ∃ calls, t.machineCalls settings = .ok calls ∧
          ∃ call ∈ calls, call.machineId = id ∧ ∃ v,
            Shape.readDefinition ⟨t.scope, settings⟩ call.definition = .present v ∧
            m.expected = .object ∧ v.StatesUndefined m.path) ∧
    ∀ (t : Source.Tree) (calls : List Source.MachineCall), t.machineCalls settings = .ok calls →
      ∀ call ∈ calls, ∀ v,
        Shape.readDefinition ⟨t.scope, settings⟩ call.definition = .present v →
          (∃ path, v.StatesUndefined path) →
            ∀ machines, t.definedMachines settings ≠ .ok machines := by
  refine ⟨fun scope e v h => ?_, fun t id m h => ?_,
    fun t calls hcalls call hcall v hv hundefined machines h => ?_⟩
  · exact Value.exists_misfit_iff (Shape.fits_of_readDefinition h)
  · rcases Outcome.bind_eq_error.1 h with h | ⟨calls, hcalls, h⟩
    · obtain ⟨e, -, he⟩ := Outcome.mapError_eq_error.1 h
      cases he
    · obtain ⟨call, hcall, h⟩ := Outcome.exists_of_mapM_eq_error h
      obtain ⟨hid, v, hv, hm⟩ := call.misfit_of_machine h
      obtain ⟨path, rfl, hpath⟩ := Value.misfit_of_readTree (Shape.fits_of_readDefinition hv) hm
      exact ⟨calls, Outcome.mapError_eq_ok.1 hcalls, call, hcall, hid, v, hv, rfl, hpath⟩
  · obtain ⟨calls', hcalls', h⟩ := Outcome.bind_eq_ok.1 h
    obtain rfl := Except.ok.inj (hcalls.symm.trans (Outcome.mapError_eq_ok.1 hcalls'))
    obtain ⟨dm, hdm⟩ := Outcome.exists_of_mem_of_mapM_eq_ok h hcall
    obtain ⟨path, hpath⟩ := hundefined
    exact hpath.readTree_ne_ok dm.tree (call.tree_of_machine hv hdm)

/-- The text of a file with a machine whose states are undefined. -/
def voidText : String :=
  "import \x7b Machine \x7d from '@xstate/compiled';\n" ++
    "Machine<C, E, 'void'>(\x7b states: undefined \x7d);\n"

/-- A definition whose states are undefined is accepted and is a misfit, and so its file has no
machines. -/
theorem misfit_of_undefined_states :
    Shape.readDefinition ⟨[], {}⟩ (.object [.keyed "states" .undefined]) =
        .present (.object [("states", .undefined)]) ∧
      (∃ m, (Value.object [("states", .undefined)]).readTree = .error m) ∧
      let file := Source.Tree.ofText .plain voidText
      definedMachines .plain {} voidText = .error (.misfit "void" ⟨["states"], .object⟩) ∧
        (∃ calls, file.machineCalls {} = .ok calls ∧ ∃ call ∈ calls, call.machineId = "void" ∧
          ∃ v, Shape.readDefinition ⟨file.scope, {}⟩ call.definition = .present v ∧
            v.StatesUndefined ["states"]) ∧
        ∀ machines, definedMachines .plain {} voidText ≠ .ok machines := by
  have hread : Shape.readDefinition ⟨[], {}⟩ (.object [.keyed "states" .undefined]) =
      .present (.object [("states", .undefined)]) := by rfl
  have hfile : Outcome.error? (definedMachines .plain {} voidText) =
      some (.misfit "void" ⟨["states"], .object⟩) := by decide +kernel
  have hmisfit := Outcome.error?_eq_some_iff.1 hfile
  obtain ⟨hdefinition, hreported, hnone⟩ := misfits_of_definitions {}
  obtain ⟨calls, hcalls, call, hcall, hid, v, hv, -, hundefined⟩ := hreported _ _ _ hmisfit
  exact ⟨hread, (hdefinition [] _ _ hread).2 ⟨_, .here List.mem_cons_self⟩, hmisfit,
    ⟨calls, hcalls, call, hcall, hid, v, hv, hundefined⟩,
    hnone _ calls hcalls call hcall v hv ⟨_, hundefined⟩⟩

end Statechart
