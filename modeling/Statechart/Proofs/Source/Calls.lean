import Statechart.Proofs.Outcome
import Statechart.Proofs.Source.Findings
import Statechart.Source.Reader

/-!
# Calls of factories

Main statement: the calls of a file are told, in the order of their addresses, if every name of a
factory outside of imports is the callee of a call with an id and a definition; otherwise the fault
is told that has the first address.
-/

namespace Statechart

/-- The scope imports a factory by the name. -/
def Scope.ImportsFactory (scope : Scope) (settings : Settings) (name : String) : Prop :=
  ∃ exported, scope.imported? name = some (settings.importSource, .named exported) ∧
    settings.isFactory exported = true

namespace Source.Tree

variable {t : Tree} {a : List Nat} {name : String} {line : Nat}

/-! ## 1. Calls and faults -/

section

variable {names : List String} {calls : List MachineCall} {e e' : CallError}

theorem inOrder_of_callsIn (h : callsIn names t = .ok calls) :
    InOrder (· < ·) (t.MadeAt (· ∈ names)) calls := by
  rw [callsIn_eq_mapM] at h
  have hcalls : (findings names t).filterMap Except.toOption = calls :=
    Outcome.filterMap_of_mapM_eq_ok h
  rw [← hcalls]
  refine ((inOrder_findings names t).filterMap _).congr fun a call => ?_
  constructor
  · intro hmade
    exact ⟨.ok call, hmade, rfl⟩
  · intro h
    obtain ⟨v, hv, hcall⟩ := h
    cases v with
    | ok call' =>
      obtain rfl := Option.some.inj hcall
      exact hv
    | error e => cases hcall

/-- Where something is wrong, nothing is told but a fault. -/
theorem exists_error_of_faultAt (h : t.FaultAt (· ∈ names) a e) :
    ∃ e', callsIn names t = .error e' := by
  have hmem : .error e ∈ findings names t :=
    (inOrder_findings names t).mem_iff.2 ⟨a, h⟩
  rw [callsIn_eq_mapM]
  exact Outcome.exists_mapM_eq_error hmem rfl

/-- **The fault that is told is the first.** -/
theorem first_of_callsIn (h : callsIn names t = .error e) :
    ∃ a, t.FaultAt (· ∈ names) a e ∧
      ∀ b e', t.FaultAt (· ∈ names) b e' → b = a ∨ a < b := by
  rw [callsIn_eq_mapM, ← Outcome.error?_eq_some_iff, Outcome.error?_mapM] at h
  obtain ⟨a, v, hv, hve, hfirst⟩ := (inOrder_findings names t).exists_first h
  obtain rfl := Outcome.error?_eq_some_iff.1 hve
  exact ⟨a, hv, fun b e' hb => hfirst b (.error e') hb (by simp [Outcome.error?])⟩

theorem faultAt_unique (h : t.FaultAt (· ∈ names) a e) (h' : t.FaultAt (· ∈ names) a e') :
    e = e' :=
  Except.error.inj ((inOrder_findings names t).unique (fun b => List.lt_irrefl b) h h')

theorem callsIn_eq_error_iff : callsIn names t = .error e ↔ ∃ a, t.FaultAt (· ∈ names) a e ∧
    ∀ b e', t.FaultAt (· ∈ names) b e' → b = a ∨ a < b := by
  refine ⟨first_of_callsIn, fun h => ?_⟩
  obtain ⟨a, ha, hfirst⟩ := h
  obtain ⟨e', he'⟩ := exists_error_of_faultAt ha
  obtain ⟨b, hb, hfirst'⟩ := first_of_callsIn he'
  have hab : b = a := by
    rcases hfirst b e' hb with h | hab
    · exact h
    · rcases hfirst' a e ha with h | hba
      · exact h.symm
      · exact absurd hab (List.lt_asymm hba)
  subst hab
  rw [he', faultAt_unique ha hb]

/-- **The calls are told if every factory that is named is called as it should be.** -/
theorem exists_callsIn_iff : (∃ calls, callsIn names t = .ok calls) ↔
    ∀ a name line, t.NamedAt (· ∈ names) a name line →
      ∃ b call, a = b ++ [0] ∧ t.MadeAt (· ∈ names) b call := by
  constructor
  · intro htold a name line hnamed
    obtain ⟨calls, hcalls⟩ := htold
    have hnone (b : List Nat) (e : CallError) : ¬ t.FaultAt (· ∈ names) b e := by
      intro hfault
      obtain ⟨e', he'⟩ := exists_error_of_faultAt hfault
      cases hcalls.symm.trans he'
    have hcallee : t.CalleeAt (· ∈ names) a name line :=
      Classical.byContradiction fun h => hnone a _ (.notCalled hnamed h)
    obtain ⟨b, parts, hab, hcalled⟩ := hcallee
    have hfinding : t.FindingAt (· ∈ names) b (machineCall name line parts) :=
      findingAt_iff.2 (.inl ⟨name, line, parts, hcalled, rfl⟩)
    cases hcall : machineCall name line parts with
    | ok call =>
      rw [hcall] at hfinding
      exact ⟨b, call, hab, hfinding⟩
    | error e =>
      rw [hcall] at hfinding
      exact absurd hfinding (hnone b e)
  · intro hmade
    have hparts {a : List Nat} {name : String} {line : Nat} {parts : List Tree}
        (hcalled : t.CalledAt (· ∈ names) a name line parts) :
        ∃ machineId definition rest, HasId parts machineId ∧
          callArguments parts = definition :: rest := by
      obtain ⟨b, call, hab, parts', rest, hcalled', hid, hargs, -⟩ := hmade _ _ _ hcalled.namedAt
      obtain ⟨rfl, -⟩ := List.append_inj' hab rfl
      rw [hcalled.parts_unique hcalled']
      exact ⟨_, _, _, hid, hargs⟩
    cases h : callsIn names t with
    | ok calls => exact ⟨calls, rfl⟩
    | error e =>
      obtain ⟨a, hfault, -⟩ := first_of_callsIn h
      cases hfault with
      | notCalled hnamed hcallee =>
        obtain ⟨b, call, rfl, parts, _, hcalled, -⟩ := hmade _ _ _ hnamed
        obtain ⟨rfl, rfl⟩ := hnamed.unique hcalled.namedAt
        exact absurd ⟨b, parts, rfl, hcalled⟩ hcallee
      | missingMachineId hcalled hid =>
        obtain ⟨_, _, _, hid', -⟩ := hparts hcalled
        exact absurd hid' (hid _)
      | missingDefinition hcalled _ hargs =>
        obtain ⟨_, _, _, -, hargs'⟩ := hparts hcalled
        cases hargs.symm.trans hargs'

end

/-! ## 2. Factories -/

theorem mem_factories_iff {scope : Scope} {settings : Settings} (hscope : Assoc.Distinct scope) :
    name ∈ factories scope settings ↔ scope.ImportsFactory settings name := by
  unfold factories Scope.ImportsFactory Scope.imported? Scope.binding?
  rw [List.mem_filterMap]
  constructor
  · intro h
    obtain ⟨⟨name', b⟩, hmem, h⟩ := h
    have hlookup := hscope.lookup_of_mem hmem
    dsimp only at h
    split at h
    · next m exported =>
      split at h
      · next hfactory =>
        obtain ⟨hm, hexported⟩ := (Bool.and_eq_true _ _).mp hfactory
        obtain rfl := Option.some.inj h
        rw [hlookup]
        exact ⟨exported, by rw [of_decide_eq_true hm], hexported⟩
      · cases h
    · cases h
  · intro h
    obtain ⟨exported, h, hexported⟩ := h
    split at h
    · next m what hlookup =>
      obtain ⟨rfl, rfl⟩ := Prod.mk.inj (Option.some.inj h)
      exact ⟨_, Assoc.mem_of_lookup hlookup, by simp [hexported]⟩
    · cases h

theorem namespaceAlias?_eq_none_iff {scope : Scope} {module : String}
    (hscope : Assoc.Distinct scope) : namespaceAlias? scope module = none ↔
      ∀ name, scope.imported? name ≠ some (module, .namespace) := by
  unfold namespaceAlias? Scope.imported? Scope.binding?
  rw [Option.map_eq_none_iff, List.find?_eq_none]
  constructor
  · intro h name himported
    split at himported
    · next m what hlookup =>
      obtain ⟨rfl, rfl⟩ := Prod.mk.inj (Option.some.inj himported)
      exact h _ (Assoc.mem_of_lookup hlookup) (by simp)
    · cases himported
  · intro h entry hmem hmatch
    obtain ⟨name, b⟩ := entry
    have hlookup := hscope.lookup_of_mem hmem
    dsimp only at hmatch
    split at hmatch
    · refine h name ?_
      rw [hlookup, of_decide_eq_true hmatch]
    · cases hmatch

/-- The calls of a file that imports factories by name are those in its tree. -/
theorem machineCalls_eq {settings : Settings}
    (hnamespace : ∀ name, t.scope.imported? name ≠ some (settings.importSource, .namespace))
    (hfactory : ∃ name, t.scope.ImportsFactory settings name) :
    t.machineCalls settings = callsIn (factories t.scope settings) t := by
  have hscope : Assoc.Distinct t.scope := Assoc.distinct_ofList _
  obtain ⟨name, hname⟩ := hfactory
  have hmem := (mem_factories_iff hscope).2 hname
  unfold machineCalls
  rw [(namespaceAlias?_eq_none_iff hscope).2 hnamespace]
  cases hnames : factories t.scope settings with
  | nil =>
    rw [hnames] at hmem
    cases hmem
  | cons first rest => rfl

/-! ## 3. Files -/

/-- **Every machine call is found once and in order.** In a file that imports factories, and by
name only, the calls are told just where every factory that is named, outside of imports, is the
callee of a call which makes a machine. They are then these calls, in the order of their addresses,
each with what is written in it. Otherwise the fault is told that has the first address. -/
theorem machineCalls_in_order (t : Tree) (settings : Settings)
    (hnamespace : ∀ name, t.scope.imported? name ≠ some (settings.importSource, .namespace))
    (hfactory : ∃ name, t.scope.ImportsFactory settings name) :
    let names := t.scope.ImportsFactory settings
    ((∃ calls, t.machineCalls settings = .ok calls) ↔
      ∀ a name line, t.NamedAt names a name line →
        ∃ b call, a = b ++ [0] ∧ t.MadeAt names b call) ∧
    (∀ calls, t.machineCalls settings = .ok calls → InOrder (· < ·) (t.MadeAt names) calls) ∧
    ∀ e, t.machineCalls settings = .error e ↔
      ∃ a, t.FaultAt names a e ∧ ∀ b e', t.FaultAt names b e' → b = a ∨ a < b := by
  intro names
  have hnames : names = (· ∈ factories t.scope settings) :=
    funext fun name => propext (mem_factories_iff (Assoc.distinct_ofList _)).symm
  rw [machineCalls_eq hnamespace hfactory, hnames]
  exact ⟨exists_callsIn_iff, fun calls => inOrder_of_callsIn, fun e => callsIn_eq_error_iff⟩

/-- The text of a file with a machine in a function, one in the definition of that one, and one
behind. -/
def familyText : String :=
  "import \x7b Machine, createMachine as make \x7d from '@xstate/compiled';\n" ++
    "const f = () => make<C, E, 'outer'>(\x7b a: Machine<C, E, 'inner'>(\x7b\x7d) \x7d);\n" ++
    "Machine<C, E, 'next'>(\x7b\x7d);\n"

/-- The text of a file in which a factory is passed on, and later called without a definition. -/
def strayText : String :=
  "import \x7b Machine \x7d from '@xstate/compiled';\n" ++
    "Machine<C, E, 'left'>(\x7b\x7d, Machine);\n" ++
    "Machine<C, E, 'right'>();\n"

/-- Three calls are told of one file, and of another that its factory is passed on. -/
theorem calls_of_family :
    let family := Tree.ofText .plain familyText
    let stray := Tree.ofText .plain strayText
    (∃ calls, family.machineCalls {} = .ok calls ∧
      calls.map (fun call => (call.callee, call.machineId, call.line)) =
        [("make", "outer", 2), ("Machine", "inner", 2), ("Machine", "next", 3)] ∧
      InOrder (· < ·) (family.MadeAt (family.scope.ImportsFactory {})) calls) ∧
    stray.machineCalls {} = .error (.factoryNotCalled "Machine" 2) ∧
      ∃ a, stray.FaultAt (stray.scope.ImportsFactory {}) a (.factoryNotCalled "Machine" 2) ∧
        ∀ b e', stray.FaultAt (stray.scope.ImportsFactory {}) b e' → b = a ∨ a < b := by
  intro family stray
  have hfamily : namespaceAlias? family.scope ({} : Settings).importSource = none ∧
      "make" ∈ factories family.scope {} ∧
      (family.machineCalls {}).toOption.any (fun calls =>
        calls.map (fun call => (call.callee, call.machineId, call.line)) =
          [("make", "outer", 2), ("Machine", "inner", 2), ("Machine", "next", 3)]) = true := by
    decide +kernel
  have hstray : namespaceAlias? stray.scope ({} : Settings).importSource = none ∧
      "Machine" ∈ factories stray.scope {} ∧
      Outcome.error? (stray.machineCalls {}) = some (.factoryNotCalled "Machine" 2) := by
    decide +kernel
  obtain ⟨hnamespace, hfactory, hcalls⟩ := hfamily
  obtain ⟨hnamespace', hfactory', herror⟩ := hstray
  have hscope (t : Tree) : Assoc.Distinct t.scope := Assoc.distinct_ofList _
  obtain ⟨-, hinOrder, -⟩ := machineCalls_in_order family {}
    ((namespaceAlias?_eq_none_iff (hscope family)).1 hnamespace)
    ⟨"make", (mem_factories_iff (hscope family)).1 hfactory⟩
  obtain ⟨-, -, hfault⟩ := machineCalls_in_order stray {}
    ((namespaceAlias?_eq_none_iff (hscope stray)).1 hnamespace')
    ⟨"Machine", (mem_factories_iff (hscope stray)).1 hfactory'⟩
  obtain ⟨calls, hcalls, hshown⟩ := Outcome.exists_eq_ok hcalls
  have herror := Outcome.error?_eq_some_iff.1 herror
  exact ⟨⟨calls, hcalls, of_decide_eq_true hshown, hinOrder calls hcalls⟩, herror,
    (hfault _).1 herror⟩

end Source.Tree

end Statechart
