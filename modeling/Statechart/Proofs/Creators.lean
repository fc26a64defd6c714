import Statechart.Proofs.Shape.Refused

/-!
# Creators of actions

A call is an action only where a creator of actions is called, and creators are imported. Main
statement: a callee is a creator just where it is an export of an action module, under any name of
its own or as a member of the module; so where nothing is imported from such a module, every
definition is refused that has a call for an action, in whatever state, at whatever transition.
-/

namespace Statechart

/-! ## 1. Exports of action modules -/

namespace Context

/-- The name is imported from an action module. -/
def ImportsAction (cx : Context) (name : String) (what : Export) : Prop :=
  ∃ module ∈ cx.settings.actionModules, cx.scope.binding? name = some (.imported module what)

/-- **The expression stands for an action module as a whole**: it is imported as that or as the
export `actions`, with any number of members `actions` after it. -/
inductive ActionNamespace (cx : Context) : Expression → Prop
  | whole {name : String} (h : cx.ImportsAction name .namespace) : ActionNamespace cx (.name name)
  | actions {name : String} (h : cx.ImportsAction name (.named "actions")) :
      ActionNamespace cx (.name name)
  | member {inner : Expression} (h : ActionNamespace cx inner) :
      ActionNamespace cx (.member inner "actions")

/-- **The expression is an export of an action module**, imported by itself or taken from the
module. -/
inductive ActionExport (cx : Context) (exported : String) : Expression → Prop
  | imported {name : String} (h : cx.ImportsAction name (.named exported)) :
      ActionExport cx exported (.name name)
  | member {inner : Expression} (h : cx.ActionNamespace inner) :
      ActionExport cx exported (.member inner exported)

variable {cx : Context} {name module : String} {what found : Export} {callee : Expression}

theorem importsAction_of_imported? (h : cx.scope.imported? name = some (module, found)) :
    cx.ImportsAction name what ↔ found = what ∧ cx.settings.isActionModule module = true := by
  unfold Scope.imported? at h
  unfold ImportsAction Settings.isActionModule
  split at h
  · next hb =>
    cases h
    simp [hb, and_comm]
  · cases h

theorem not_importsAction (h : cx.scope.imported? name = none) : ¬ cx.ImportsAction name what := by
  intro himports
  obtain ⟨module, -, hb⟩ := himports
  unfold Scope.imported? at h
  rw [hb] at h
  cases h

theorem actionNamespace_name_iff : cx.ActionNamespace (.name name) ↔
    cx.ImportsAction name .namespace ∨ cx.ImportsAction name (.named "actions") := by
  constructor
  · intro h
    cases h with
    | whole h => exact .inl h
    | actions h => exact .inr h
  · intro h
    rcases h with h | h
    · exact .whole h
    · exact .actions h

/-- What is taken for an action module stands for one. -/
theorem isActionNamespace_iff (cx : Context) :
    (e : Expression) → (cx.isActionNamespace e = true ↔ cx.ActionNamespace e)
  | .name local_ => by
    rw [actionNamespace_name_iff, isActionNamespace]
    cases h : cx.scope.imported? local_ with
    | none => simp [not_importsAction h]
    | some binding =>
      obtain ⟨module, found⟩ := binding
      rw [importsAction_of_imported? h, importsAction_of_imported? h]
      cases found <;> simp
  | .member inner property => by
    rw [isActionNamespace, Bool.and_eq_true, beq_iff_eq, isActionNamespace_iff cx inner]
    constructor
    · intro h
      obtain ⟨rfl, h⟩ := h
      exact .member h
    · intro h
      cases h with
      | member h => exact ⟨rfl, h⟩
  | .object _ | .array _ | .string _ | .number _ | .bool _ | .undefined | .null | .function
  | .call _ _ | .other _ => by
    constructor <;> intro h <;> cases h

theorem actionExport_name_iff {exported : String} :
    cx.ActionExport exported (.name name) ↔ cx.ImportsAction name (.named exported) := by
  constructor
  · intro h
    cases h with
    | imported h => exact h
  · exact .imported

theorem actionExport_member_iff {exported property : String} {inner : Expression} :
    cx.ActionExport exported (.member inner property) ↔
      property = exported ∧ cx.ActionNamespace inner := by
  constructor
  · intro h
    cases h with
    | member h => exact ⟨rfl, h⟩
  · intro h
    obtain ⟨rfl, h⟩ := h
    exact .member h

/-- **A callee is a creator just where it is an export of an action module** that creates
actions. -/
theorem creator?_eq_some_iff {creator : String} :
    cx.creator? callee = some creator ↔
      creator ∈ creatorNames ∧ cx.ActionExport creator callee := by
  unfold creator?
  rw [Option.filter_eq_some_iff, List.contains_iff_mem, and_comm]
  refine and_congr_right fun _ => ?_
  cases callee with
  | name local_ =>
    rw [actionExport_name_iff]
    cases h : cx.scope.imported? local_ with
    | none => simp [h, not_importsAction h]
    | some binding =>
      obtain ⟨module, found⟩ := binding
      rw [importsAction_of_imported? h]
      cases found <;> simp [h, and_comm]
  | member inner property =>
    rw [actionExport_member_iff, ← isActionNamespace_iff]
    simp [and_comm]
  | _ =>
    constructor <;> intro h <;> cases h

/-- Without imports from action modules there are no creators. -/
theorem creator?_eq_none (h : ∀ name what, ¬ cx.ImportsAction name what) (callee : Expression) :
    cx.creator? callee = none := by
  have hnamespace (e : Expression) : ¬ cx.ActionNamespace e := by
    intro he
    induction he with
    | whole hname | actions hname => exact h _ _ hname
    | member _ ih => exact ih
  refine Option.eq_none_iff_forall_ne_some.2 fun creator hcreator => ?_
  obtain ⟨-, hexport⟩ := creator?_eq_some_iff.1 hcreator
  cases hexport with
  | imported hname => exact h _ _ hname
  | member hinner => exact hnamespace _ hinner

end Context

/-! ## 2. Calls among the actions -/

namespace Scope

/-- The expression is a call, or an array with a call among its items. -/
def ListsCall (scope : Scope) (x : Expression) : Prop :=
  ∃ y callee args, scope.Lists x y ∧ scope.StandsFor y (.call callee args)

/-- **A call is among the actions of the definition**: those on entry to some state or on exit from
it, or those of one of its transitions. -/
inductive ActsByCall (scope : Scope) (e : Expression) : Prop
  | ofState {s y : Expression} {key : String} (hs : scope.StateWithin e s)
      (hkey : key ∈ ["entry", "exit"]) (hy : scope.Holds s key y) (hcall : scope.ListsCall y) :
      ActsByCall scope e
  | ofTransition {s t y : Expression} (hs : scope.StateWithin e s) (ht : scope.TransitionOf s t)
      (hy : scope.Holds t "actions" y) (hcall : scope.ListsCall y) : ActsByCall scope e

end Scope

namespace Shape

variable {cx : Context} {x e : Expression}

/-! ## 3. Calls -/

section Calls

variable (hnone : ∀ callee, cx.creator? callee = none)
include hnone

theorem refuses_creatorCall (x : Expression) : Refuses cx .creatorCall x := by
  intro n
  by_contra hread
  obtain ⟨m, _, callee, args, _, rfl, hxx, hx, -⟩ := exists_creatorCall hread
  obtain rfl := Option.some.inj hxx
  obtain ⟨name, hname, -⟩ := (read_creatorCall_ne_failed_iff hx).1 hread
  rw [hnone callee] at hname
  cases hname

/-- Without creators an action is a text, a function or an object. -/
theorem refuses_action {g : Form} (hx : cx.scope.StandsFor x e) (he : formOf? (some e) = some g)
    (hg : g ∉ [.string, .function, .object]) : Refuses cx (.rule .action) x := by
  simp only [List.mem_cons, List.not_mem_nil, or_false, not_or] at hg
  obtain ⟨htext, hfunction, hobject⟩ := hg
  refine refuses_rule (refuses_oneOf ?_)
  simp only [List.forall_mem_cons]
  exact ⟨refuses_of_form hx he rfl (Ne.symm htext), refuses_of_form hx he rfl (Ne.symm hfunction),
    refuses_of_form hx he rfl (Ne.symm hobject), refuses_creatorCall hnone x,
    List.forall_mem_nil _⟩

theorem refuses_actions (h : cx.scope.ListsCall x) : Refuses cx actions x := by
  obtain ⟨y, callee, args, hlists, hy⟩ := h
  exact refuses_oneOrMore hlists hy rfl (by decide) (refuses_action hnone hy rfl (by decide))
    fun items hx _ => refuses_action hnone hx rfl (by decide)

/-- **Without creators a definition is refused that has a call among its actions.** -/
theorem refuses_of_actsByCall (h : cx.scope.ActsByCall e) : Refuses cx (.rule .state) e := by
  cases h with
  | @ofState s y key hs hkey hy hcall =>
    have hactions : Refuses cx actions y := refuses_actions hnone hcall
    have hfields : ∀ key ∈ ["entry", "exit"], (key, .optional actions) ∈ commonFields := by
      simp [commonFields]
    exact refuses_of_stateWithin hs
      (refuses_state hy (hfields key hkey) (refuses_optional hactions))
  | ofTransition hs ht hy hcall =>
    exact refuses_of_stateWithin hs
      (refuses_state_of_transition ht hy (refuses_actions hnone hcall))

end Calls

end Shape

/-! ## 4. Definitions -/

/-- **Creators of actions are known by their imports.** A callee is a creator just where it is an
export of an action module, imported under any name or taken from the module as a member, and one of
those that create actions. So where nothing is imported from an action module, every definition is
refused in which a call is an action, or one of several, of a state or of a transition. -/
theorem Context.actions_created_by_imports (cx : Context) :
    (∀ callee creator, cx.creator? callee = some creator ↔
      creator ∈ Context.creatorNames ∧ cx.ActionExport creator callee) ∧
      ((∀ name what, ¬ cx.ImportsAction name what) →
        ∀ e, cx.scope.ActsByCall e → Shape.readDefinition cx e = .failed) := by
  refine ⟨fun callee creator => Context.creator?_eq_some_iff, fun h e he => ?_⟩
  have hnone : ∀ callee, cx.creator? callee = none := Context.creator?_eq_none h
  exact Shape.refuses_of_actsByCall hnone he (Shape.maxNesting + 1)

/-- An export is a creator by the name that it has in its module. A door is refused whose lower
state calls, under two names, what comes from another module. -/
theorem door_calling_refused :
    let imports : Context :=
      ⟨[("x", .imported "xstate" .namespace), ("send", .imported "xstate" (.named "log"))], {}⟩
    let shutting : Expression := .object [.keyed "actions" (.string "ring"),
      .keyed "actions" (.name "steps")]
    let events : Expression := .object [.keyed "PUSH" (.array [.string "shut", shutting])]
    let opened : Expression := .object [.keyed "on" events]
    let cx : Context :=
      ⟨[("send", .imported "./bus" (.named "send")), ("opened", .value opened),
        ("steps", .value (.array [.string "ring", .name "later"])),
        ("later", .value (.call (.name "send") [.string "GO"]))], {}⟩
    let states : Expression := .object [.keyed "open" .null, .keyed "open" (.name "opened")]
    let door : Expression := .object [.keyed "states" states]
    imports.creator? (.member (.member (.name "x") "actions") "raise") = some "raise" ∧
      imports.creator? (.name "send") = some "log" ∧
      (∀ name what, ¬ cx.ImportsAction name what) ∧ cx.scope.ActsByCall door ∧
      Shape.readDefinition cx door = .failed := by
  intro imports shutting events opened cx states door
  have hx : imports.ImportsAction "x" .namespace := ⟨"xstate", by decide, rfl⟩
  have hlog : imports.ImportsAction "send" (.named "log") := ⟨"xstate", by decide, rfl⟩
  obtain ⟨hcreators, -⟩ := Context.actions_created_by_imports imports
  have himports : ∀ name what, ¬ cx.ImportsAction name what := by
    intro name what h
    obtain ⟨module, hmodule, hb⟩ := h
    have hmem : (name, .imported module what) ∈ cx.scope := Assoc.mem_of_lookup hb
    simp only [cx, List.mem_cons, Prod.mk.injEq, Binding.imported.injEq, reduceCtorEq, and_false,
      or_false, List.not_mem_nil] at hmem
    obtain ⟨-, rfl, -⟩ := hmem
    exact absurd hmodule (by decide)
  have hself (e : Expression) : cx.scope.StandsFor e e := ⟨0, .here e⟩
  have hopened : cx.scope.StandsFor (.name "opened") opened :=
    Scope.standsFor_of_resolve rfl (by simp [opened])
  have hsteps : cx.scope.StandsFor (.name "steps") (.array [.string "ring", .name "later"]) :=
    Scope.standsFor_of_resolve rfl (by simp)
  have hlater : cx.scope.StandsFor (.name "later") (.call (.name "send") [.string "GO"]) :=
    Scope.standsFor_of_resolve rfl (by simp)
  have hcall : cx.scope.ListsCall (.name "steps") := ⟨_, _, _, .item hsteps (by simp), hlater⟩
  have hopen : cx.scope.Holds states "open" (.name "opened") := ⟨_, hself _, rfl⟩
  have hpush : cx.scope.Holds events "PUSH" (.array [.string "shut", shutting]) :=
    ⟨_, hself _, rfl⟩
  have hstate : cx.scope.StateWithin door (.name "opened") :=
    .child ⟨_, hself _, rfl⟩ hopen (.self _)
  have htransition : cx.scope.TransitionOf (.name "opened") shutting :=
    .keyed List.mem_cons_self ⟨_, hopened, rfl⟩ hpush (.item (hself _) (by simp))
  have hdoor : cx.scope.ActsByCall door :=
    .ofTransition hstate htransition ⟨_, hself _, rfl⟩ hcall
  exact ⟨(hcreators _ _).2 ⟨by decide, .member (.member (.whole hx))⟩,
    (hcreators _ _).2 ⟨by decide, .imported hlog⟩, himports, hdoor,
    (Context.actions_created_by_imports cx).2 himports door hdoor⟩

end Statechart
