import Mathlib.Logic.Function.Iterate
import Mathlib.Tactic.Choose
import Statechart.Extraction
import Statechart.Proofs.Kept
import Statechart.Proofs.Obstacle
import Statechart.Proofs.Outcome

/-!
# Endless states

A name may stand for a state that contains the name, and so there may be states below states without
end. Main statement: such a definition is refused, the search for obstacles has one to tell, and no
part of the file is told. Each state takes up two levels, its own and that of the object of states,
for reading as for the search.
-/

namespace Statechart

/-! ## 1. States below states -/

namespace Scope

variable {scope : Scope} {e c x : Expression} {key : String} {k : Nat}

/-- What is written last under a key of the object at the end of the names. -/
def last? (scope : Scope) (e : Expression) (key : String) : Option Expression :=
  match scope.resolve e with
  | .object entries => Entry.last? entries key
  | _ => none

theorem exists_of_last? (h : scope.last? e key = some x) :
    ∃ entries, scope.resolve e = .object entries ∧ Entry.last? entries key = some x := by
  unfold last? at h
  split at h
  · next entries he => exact ⟨entries, he, h⟩
  · cases h

/-- The second expression is written last under some key in the object that is written last for the
states below the first. -/
def ChildState (scope : Scope) (e c : Expression) : Prop :=
  ∃ x key, scope.last? e "states" = some x ∧ scope.last? x key = some c

/-- There are states below one another `k` levels deep. -/
inductive Descends (scope : Scope) : (k : Nat) → Expression → Prop
  | here (e : Expression) : Descends scope 0 e
  | child {k : Nat} {e c : Expression} (hc : scope.ChildState e c) (rest : Descends scope k c) :
      Descends scope (k + 1) e

/-- **There are states below one another without end.** -/
def Endless (scope : Scope) (e : Expression) : Prop :=
  ∃ chain : Nat → Expression, chain 0 = e ∧ ∀ i, scope.ChildState (chain i) (chain (i + 1))

/-- The first state of an endless chain is followed by another such chain. -/
theorem Endless.exists_child (h : scope.Endless e) :
    ∃ c, scope.ChildState e c ∧ scope.Endless c := by
  obtain ⟨chain, rfl, hchain⟩ := h
  exact ⟨chain 1, hchain 0, fun i => chain (i + 1), rfl, fun i => hchain (i + 1)⟩

/-- States that all have states of the same sort below them are endless. -/
theorem endless_of_step {sort : Expression → Prop}
    (hstep : ∀ e, sort e → ∃ c, scope.ChildState e c ∧ sort c) (he : sort e) : scope.Endless e := by
  choose! child hchild hsort using hstep
  have hall (i : Nat) : sort (child^[i] e) := by
    induction i with
    | zero => exact he
    | succ i ih =>
      rw [Function.iterate_succ_apply']
      exact hsort _ ih
  refine ⟨fun i => child^[i] e, rfl, fun i => ?_⟩
  show scope.ChildState (child^[i] e) (child^[i + 1] e)
  rw [Function.iterate_succ_apply']
  exact hchild _ (hall i)

/-- Two states are endless that contain each other. -/
theorem endless_of_circle (h : scope.ChildState e c) (h' : scope.ChildState c e) :
    scope.Endless e := by
  let sort (x : Expression) : Prop := x = e ∨ x = c
  have he : sort e := .inl rfl
  refine endless_of_step (fun x hx => ?_) he
  obtain rfl | rfl : x = e ∨ x = c := hx
  · exact ⟨c, h, .inr rfl⟩
  · exact ⟨e, h', .inl rfl⟩

theorem Endless.descends (h : scope.Endless e) (k : Nat) : scope.Descends k e := by
  induction k generalizing e with
  | zero => exact .here e
  | succ k ih =>
    obtain ⟨c, hc, hrest⟩ := h.exists_child
    exact .child hc (ih hrest)

end Scope

variable {cx : Context} {allow : Bool} {e c : Expression} {k n : Nat}

/-! ## 2. Reading -/

namespace Shape

/-- **One state:** a state below an accepted one is accepted two levels below. -/
theorem exists_read_child (hc : cx.scope.ChildState e c)
    (h : read cx n (.rule .state) (some e) ≠ .failed) :
    ∃ m, n = m + 2 ∧ read cx m (.rule .state) (some c) ≠ .failed := by
  obtain ⟨x, key, hstates, hchild⟩ := hc
  obtain ⟨entries, he, hx⟩ := Scope.exists_of_last? hstates
  obtain ⟨inner, hinner, hkey⟩ := Scope.exists_of_last? hchild
  obtain ⟨m, _, entries', w, vs, rfl, hee, he', hw, -, -, hread⟩ := exists_state h
  obtain rfl := Option.some.inj hee
  obtain rfl := Expression.object.inj (he.symm.trans he')
  obtain ⟨-, -, hlast⟩ := Entry.keys_of_keyed? hw
  have hlookup : w.lookup "states" = some x := (hlast "states").trans hx
  rw [hlookup] at hread
  rcases hread with hread | hread
  · exact absurd hinner ((not_object_of_read hread).1 x inner rfl)
  · rw [read_optional_some] at hread
    obtain ⟨k, inner', ws, rfl, hwritten, -, -, hbelow⟩ :=
      exists_written_record not_omissible_state hread
    obtain rfl := Expression.object.inj (hinner.symm.trans hwritten.resolve)
    obtain ⟨u, -, hu⟩ := hbelow key c hkey
    exact ⟨k, rfl, by simp [hu]⟩

/-- **All states:** what is accepted has too few levels for every chain of states below it. -/
theorem lt_of_descends (hd : cx.scope.Descends k e)
    (h : read cx n (.rule .state) (some e) ≠ .failed) : 2 * k < n := by
  induction hd generalizing n with
  | here e =>
    obtain ⟨m, rfl⟩ := exists_level h
    omega
  | child hc _ ih =>
    obtain ⟨m, rfl, hread⟩ := exists_read_child hc h
    have hm := ih hread
    omega

end Shape

/-! ## 3. The search -/

namespace Obstacle

/-- **One state:** an obstacle in a state below is one two levels above. -/
theorem exists_findWithin_child (hc : cx.scope.ChildState e c)
    (h : ∃ o, findWithin cx allow n c = some o) :
    ∃ o, findWithin cx allow (n + 2) e = some o := by
  obtain ⟨x, key, hstates, hchild⟩ := hc
  obtain ⟨entries, he, hx⟩ := Scope.exists_of_last? hstates
  obtain ⟨inner, hinner, hkey⟩ := Scope.exists_of_last? hchild
  have hfound : ∃ o, findWithin cx allow (n + 1) x = some o :=
    exists_findWithin_object hinner (Entry.mem_of_last? hkey) h
  exact exists_findWithin_object he (Entry.mem_of_last? hx) hfound

/-- **All states:** a chain of states that takes up all levels ends in an obstacle. -/
theorem exists_findWithin_of_descends (hd : cx.scope.Descends k e) (hn : n ≤ 2 * k) :
    ∃ o, findWithin cx allow n e = some o := by
  induction hd generalizing n with
  | here e =>
    obtain rfl : n = 0 := by omega
    exact ⟨_, rfl⟩
  | @child k e c hc _ ih =>
    match n with
    | 0 => exact ⟨_, rfl⟩
    | 1 =>
      -- the levels end at the object of states
      obtain ⟨x, -, hstates, -⟩ := hc
      obtain ⟨entries, he, hx⟩ := Scope.exists_of_last? hstates
      exact exists_findWithin_object he (Entry.mem_of_last? hx) ⟨_, rfl⟩
    | n + 2 => exact exists_findWithin_child hc (ih (by omega))

end Obstacle

/-! ## 4. Definitions -/

/-- More states below one another than there are levels for are not accepted. -/
theorem Shape.readDefinition_of_descends (hd : cx.scope.Descends k e)
    (hk : Shape.maxNesting < 2 * k) : Shape.readDefinition cx e = .failed := by
  by_contra h
  have hlevels : 2 * k < Shape.maxNesting + 1 := Shape.lt_of_descends hd h
  omega

/-- More states below one another than there are levels for have an obstacle. -/
theorem Obstacle.exists_find_of_descends (allow : Bool) (hd : cx.scope.Descends k e)
    (hk : Shape.maxNesting < 2 * k) : ∃ o, Obstacle.find? cx allow e = some o :=
  Obstacle.exists_findWithin_of_descends hd hk

/-- **An endless definition is not accepted and has an obstacle.** -/
theorem Scope.Endless.refused {scope : Scope} (h : scope.Endless e) (settings : Settings) :
    Shape.readDefinition ⟨scope, settings⟩ e = .failed ∧
      ∀ allow, ∃ o, Obstacle.find? ⟨scope, settings⟩ allow e = some o := by
  have hdescends : scope.Descends Shape.maxNesting e := h.descends _
  have hlevels : Shape.maxNesting < 2 * Shape.maxNesting := by decide
  exact ⟨Shape.readDefinition_of_descends hdescends hlevels,
    fun allow => Obstacle.exists_find_of_descends allow hdescends hlevels⟩

/-- A call whose definition is not accepted makes no machine; its first obstacle is told. -/
theorem Source.MachineCall.machine_of_failed {call : MachineCall} {o : Obstacle}
    (h : Shape.readDefinition cx call.definition = .failed)
    (ho : Obstacle.find? cx false call.definition = some o) :
    call.machine cx = .error (.unsupportedTree call.machineId call.line o.text) := by
  unfold MachineCall.machine refusal
  rw [h, ho]
  rfl

/-! ## 5. Files -/

/-- A file whose calls are told has the machines of these calls, if all of them make one. -/
theorem Source.Tree.definedMachines_of_calls {t : Tree} {settings : Settings}
    {calls : List MachineCall} (h : t.machineCalls settings = .ok calls) :
    t.definedMachines settings = calls.mapM (MachineCall.machine ⟨t.scope, settings⟩) := by
  unfold definedMachines
  simp only [h]
  rfl

/-- **Endless states are refused.** No definition whose states go on without end is accepted, and
there is an obstacle in it. A call with such a definition makes no machine but is reported with the
obstacle, and then no machine of the file is told: the report is that of this call unless there is
one for an earlier call. -/
theorem endless_states_refused (settings : Settings) :
    (∀ (scope : Scope) (e : Expression), scope.Endless e →
      Shape.readDefinition ⟨scope, settings⟩ e = .failed ∧
        ∀ allow, ∃ o, Obstacle.find? ⟨scope, settings⟩ allow e = some o) ∧
    ∀ (t : Source.Tree) (before after : List Source.MachineCall) (call : Source.MachineCall),
      t.machineCalls settings = .ok (before ++ call :: after) → t.scope.Endless call.definition →
        let cx : Context := ⟨t.scope, settings⟩
        ∃ o, Obstacle.find? cx false call.definition = some o ∧
          call.machine cx = .error (.unsupportedTree call.machineId call.line o.text) ∧
          ∃ fault, t.definedMachines settings = .error fault ∧
            ((∀ earlier ∈ before, ∃ dm, earlier.machine cx = .ok dm) →
              fault = .unsupportedTree call.machineId call.line o.text) := by
  refine ⟨fun scope e h => h.refused settings, ?_⟩
  intro t before after call hcalls hendless cx
  obtain ⟨hfailed, hfind⟩ := hendless.refused settings
  obtain ⟨o, ho⟩ := hfind false
  have hmachine : call.machine cx =
      .error (.unsupportedTree call.machineId call.line o.text) :=
    Source.MachineCall.machine_of_failed hfailed ho
  have hdefined : t.definedMachines settings =
      (before ++ call :: after).mapM (Source.MachineCall.machine cx) :=
    t.definedMachines_of_calls hcalls
  have hmem : call ∈ before ++ call :: after := List.mem_append_right before List.mem_cons_self
  obtain ⟨fault, hfault⟩ := Outcome.exists_mapM_eq_error hmem hmachine
  refine ⟨o, ho, hmachine, fault, hdefined.trans hfault, fun hbefore => ?_⟩
  exact Except.error.inj (hfault.symm.trans (Outcome.mapM_of_first_error hbefore hmachine))

/-- The name that an expression is, if it is one. -/
def Expression.name? : Expression → Option String
  | .name n => some n
  | _ => none

theorem Expression.name?_eq_some {n : String} (h : e.name? = some n) : e = .name n := by
  unfold Expression.name? at h
  split at h
  · rw [Option.some.inj h]
  · cases h

theorem Scope.childState_of_name? {scope : Scope} {key n : String}
    (h : ((scope.last? e "states").bind fun x => (scope.last? x key).bind Expression.name?) =
      some n) : scope.ChildState e (.name n) := by
  obtain ⟨x, hx, h⟩ := Option.bind_eq_some_iff.1 h
  obtain ⟨c, hc, h⟩ := Option.bind_eq_some_iff.1 h
  obtain rfl := Expression.name?_eq_some h
  exact ⟨x, key, hx, hc⟩

/-- The text of a file with two states that contain each other. -/
def circleText : String :=
  "import \x7b Machine \x7d from '@xstate/compiled';\n" ++
    "const left = \x7b states: \x7b a: right \x7d \x7d;\n" ++
    "const right = \x7b states: \x7b b: left \x7d \x7d;\n" ++
    "Machine<C, E, 'circle'>(left);\n"

/-- A state is refused that contains itself by way of another one, and so is its file. -/
theorem circle_refused :
    let file := Source.Tree.ofText .plain circleText
    file.scope.Endless (.name "left") ∧
      Shape.readDefinition ⟨file.scope, {}⟩ (.name "left") = .failed ∧
      ∃ call, file.machineCalls {} = .ok [call] ∧ call.definition = .name "left" ∧
        ∃ o, Obstacle.find? ⟨file.scope, {}⟩ false (.name "left") = some o ∧
          definedMachines .plain {} circleText = .error (.unsupportedTree "circle" 4 o.text) := by
  intro file
  have hfile : ((file.scope.last? (.name "left") "states").bind fun x =>
        (file.scope.last? x "a").bind Expression.name?) = some "right" ∧
      ((file.scope.last? (.name "right") "states").bind fun x =>
        (file.scope.last? x "b").bind Expression.name?) = some "left" ∧
      (file.machineCalls {}).toOption.any (fun calls =>
        calls.map (fun call => (call.machineId, call.line, call.definition.name?)) ==
          [("circle", 4, some "left")]) = true := by decide +kernel
  obtain ⟨hleft, hright, hcalls⟩ := hfile
  have hcircle : file.scope.Endless (.name "left") :=
    Scope.endless_of_circle (Scope.childState_of_name? hleft) (Scope.childState_of_name? hright)
  obtain ⟨calls, hcalls, hshown⟩ := Outcome.exists_eq_ok hcalls
  obtain ⟨call, rfl, hcall⟩ := List.map_eq_singleton_iff.1 (beq_iff_eq.1 hshown)
  obtain ⟨hid, hrest⟩ := Prod.mk.inj hcall
  obtain ⟨hline, hname⟩ := Prod.mk.inj hrest
  have hdefinition : call.definition = .name "left" := Expression.name?_eq_some hname
  obtain ⟨hall, hrefused⟩ := endless_states_refused {}
  obtain ⟨o, ho, -, fault, hfault, hfirst⟩ :=
    hrefused file [] [] call hcalls (by rw [hdefinition]; exact hcircle)
  obtain rfl := hfirst (List.forall_mem_nil _)
  rw [hid, hline] at hfault
  rw [hdefinition] at ho
  exact ⟨hcircle, (hall _ _ hcircle).1, call, hcalls, hdefinition, o, ho, hfault⟩

end Statechart
