import Statechart.Proofs.Extraction
import Statechart.Proofs.Outcome
import Statechart.Proofs.Shape.Unambiguous

/-!
# Strict and permissive

Keys that mean nothing rule an object out in strict mode and are passed over in permissive mode.
Main statement: being strict removes answers and never changes one, neither for a definition nor for
provided implementations nor for the machines of a file.
-/

namespace Statechart

/-! ## 1. What the mode has no part in -/

theorem Context.isActionNamespace_withMode (scope : Scope) (settings : Settings) (mode : Mode) :
    (e : Expression) → isActionNamespace ⟨scope, settings.withMode mode⟩ e =
      isActionNamespace ⟨scope, settings⟩ e
  | .member object _ => by
    rw [isActionNamespace, isActionNamespace,
      isActionNamespace_withMode scope settings mode object]
  | .name _ => rfl
  | .string _ => rfl
  | .number _ => rfl
  | .bool _ => rfl
  | .undefined => rfl
  | .null => rfl
  | .function => rfl
  | .object _ => rfl
  | .array _ => rfl
  | .call _ _ => rfl
  | .other _ => rfl

/-- Creators of actions are known by their imports, whatever the mode. -/
theorem Context.creator?_withMode (scope : Scope) (settings : Settings) (mode : Mode)
    (callee : Expression) :
    creator? ⟨scope, settings.withMode mode⟩ callee = creator? ⟨scope, settings⟩ callee := by
  cases callee with
  | member object property =>
    unfold creator?
    simp only [isActionNamespace_withMode]
  | _ => rfl

/-- So are the factories of machines. -/
theorem Source.Tree.machineCalls_withMode (t : Source.Tree) (settings : Settings) (mode : Mode) :
    t.machineCalls (settings.withMode mode) = t.machineCalls settings := rfl

/-! ## 2. One machine -/

section

variable {scope : Scope} {settings : Settings}

namespace Shape

/-- Permissive reading is no stricter than strict reading. -/
theorem noStricter_permissive (n : Nat) :
    NoStricter ⟨scope, settings.withMode .permissive⟩ n ⟨scope, settings.withMode .strict⟩ n where
  scope := rfl
  creator callee := by rw [Context.creator?_withMode, Context.creator?_withMode]
  mode h := by cases h
  levels := Nat.le_refl n

theorem readDefinition_permissive (e : Expression) :
    (readDefinition ⟨scope, settings.withMode .permissive⟩ e).Extends
      (readDefinition ⟨scope, settings.withMode .strict⟩ e) :=
  (Unambiguous.rule .state).stable _ _ _ _ (noStricter_permissive _) _

theorem readProvided_permissive (o : Option Expression) :
    (readProvided ⟨scope, settings.withMode .permissive⟩ o).Extends
      (readProvided ⟨scope, settings.withMode .strict⟩ o) :=
  unambiguous_provided.optional.stable _ _ _ _ (noStricter_permissive _) _

end Shape

/-- A machine has a definition that is accepted. -/
theorem Source.MachineCall.exists_definition {cx : Context} {call : MachineCall}
    {dm : DefinedMachine} (h : call.machine cx = .ok dm) :
    ∃ v, Shape.readDefinition cx call.definition = .present v := by
  unfold MachineCall.machine at h
  cases hv : Shape.readDefinition cx call.definition with
  | present v => exact ⟨v, rfl⟩
  | failed =>
    rw [hv] at h
    cases h
  | absent =>
    rw [hv] at h
    cases h

/-- A machine that is told in strict mode is told alike in permissive mode. -/
theorem Source.MachineCall.machine_permissive {call : MachineCall} {dm : DefinedMachine}
    (h : call.machine ⟨scope, settings.withMode .strict⟩ = .ok dm) :
    call.machine ⟨scope, settings.withMode .permissive⟩ = .ok dm := by
  obtain ⟨v, hv⟩ := exists_definition h
  have hv' : Shape.readDefinition ⟨scope, settings.withMode .permissive⟩ call.definition =
      .present v := by
    rw [Shape.readDefinition_permissive call.definition (by simp [hv]), hv]
  have hprovided :
      (Shape.readProvided ⟨scope, settings.withMode .permissive⟩ call.provided).Extends
        (Shape.readProvided ⟨scope, settings.withMode .strict⟩ call.provided) :=
    Shape.readProvided_permissive call.provided
  rw [machine_eq hv] at h
  rw [machine_eq hv']
  cases hp : Shape.readProvided ⟨scope, settings.withMode .strict⟩ call.provided with
  | failed =>
    rw [hp] at h
    cases h
  | absent =>
    rw [hprovided (by simp [hp]), hp]
    rw [hp] at h
    exact h
  | present w =>
    rw [hprovided (by simp [hp]), hp]
    rw [hp] at h
    exact h

end

/-! ## 3. All machines -/

/-- **Strictness only removes answers.** A definition that is accepted in strict mode is accepted in
permissive mode with the same value, and so are provided implementations. Where the machines of a
file are told in strict mode, they are the same in permissive mode, whatever its syntax tree. -/
theorem permissive_of_strict (settings : Settings) :
    (∀ (scope : Scope) (e : Expression) (v : Value),
      Shape.readDefinition ⟨scope, settings.withMode .strict⟩ e = .present v →
        Shape.readDefinition ⟨scope, settings.withMode .permissive⟩ e = .present v) ∧
    (∀ (scope : Scope) (o : Option Expression) (v : Value),
      Shape.readProvided ⟨scope, settings.withMode .strict⟩ o = .present v →
        Shape.readProvided ⟨scope, settings.withMode .permissive⟩ o = .present v) ∧
    ∀ (t : Source.Tree) (machines : List DefinedMachine),
      t.definedMachines (settings.withMode .strict) = .ok machines →
        t.definedMachines (settings.withMode .permissive) = .ok machines := by
  refine ⟨fun scope e v h => ?_, fun scope o v h => ?_, fun t machines h => ?_⟩
  · rw [Shape.readDefinition_permissive e (by simp [h]), h]
  · rw [Shape.readProvided_permissive o (by simp [h]), h]
  · obtain ⟨calls, hcalls, h⟩ := Outcome.bind_eq_ok.1 h
    refine Outcome.bind_eq_ok.2 ⟨calls, ?_, ?_⟩
    · rw [Source.Tree.machineCalls_withMode] at hcalls ⊢
      exact hcalls
    · have hmachines := Outcome.mapM_eq_ok.1 h
      exact Outcome.mapM_eq_ok.2 (hmachines.imp fun _ _ => Source.MachineCall.machine_permissive)

-- a key that means nothing rules a definition out in strict mode only
example : Shape.readDefinition ⟨[], Settings.withMode {} .strict⟩
      (.object [.keyed "colour" (.string "red")]) = .failed ∧
    Shape.readDefinition ⟨[], Settings.withMode {} .permissive⟩
      (.object [.keyed "colour" (.string "red")]) = .present (.object []) :=
  ⟨rfl, rfl⟩

/-- The text of a file with one machine. -/
def doorText : String :=
  "import \x7b Machine \x7d from '@xstate/compiled';\n" ++
    "Machine<C, E, 'door'>(\x7b on: \x7b OPEN: 'a' \x7d \x7d, " ++
    "\x7b delays: \x7b SOON: 10 \x7d \x7d);\n"

/-- A state below another with two targets, an implementation of an action, and a file with a
machine are all read in strict mode, and so they are in permissive mode. -/
theorem door_told_in_both_modes :
    let strict := Settings.withMode {} .strict
    let permissive := Settings.withMode {} .permissive
    let tree := Expression.object [.keyed "states" (.object [.keyed "shut" (.object
      [.keyed "always" (.array [.string "#a", .string "#b"])])])]
    let treeValue := Value.object [("states", .object [("shut", .object
      [("always", .array [.string "#a", .string "#b"])])])]
    let provided := Expression.object [.keyed "actions" (.object [.keyed "ring" (.name "bell")])]
    let providedValue := Value.object [("actions", .object [("ring", .function)])]
    Shape.readDefinition ⟨[], strict⟩ tree = .present treeValue ∧
      Shape.readDefinition ⟨[], permissive⟩ tree = .present treeValue ∧
      Shape.readProvided ⟨[], strict⟩ (some provided) = .present providedValue ∧
      Shape.readProvided ⟨[], permissive⟩ (some provided) = .present providedValue ∧
      ∃ machines, machines.map DefinedMachine.id = ["door"] ∧
        definedMachines .plain strict doorText = .ok machines ∧
        definedMachines .plain permissive doorText = .ok machines := by
  intro strict permissive tree treeValue provided providedValue
  have htree : Shape.readDefinition ⟨[], strict⟩ tree = .present treeValue := by rfl
  have hprovided : Shape.readProvided ⟨[], strict⟩ (some provided) = .present providedValue := by
    rfl
  have htext : (definedMachines .plain strict doorText).toOption.any
      (fun machines => machines.map DefinedMachine.id == ["door"]) = true := by decide +kernel
  obtain ⟨machines, hok, hid⟩ := Outcome.exists_eq_ok htext
  obtain ⟨hdefinition, himplementations, hmachines⟩ := permissive_of_strict {}
  exact ⟨htree, hdefinition _ _ _ htree, hprovided, himplementations _ _ _ hprovided, machines,
    by simpa using hid, hok, hmachines _ _ hok⟩

end Statechart
