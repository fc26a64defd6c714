import Statechart.Analysis
import Statechart.Proofs.Extraction
import Statechart.Proofs.Graph.Kinds
import Statechart.Proofs.Leniency

/-!
# States without states below them

A state that is read from an expression either has no states below it or is of a kind that may have
some: of the shapes of states, those that allow states below do not allow a type that rules them
out. Main statement: so no final, history or atomic state of a definition has children, on any
level, and no file is ever reported for such children.
-/

namespace Statechart

open Shape (Fits)

/-- A state that is final, a history state or atomic has no states below it. -/
def StateTree.ChildlessByKind (d : StateDecl) (cs : Assoc StateTree) : Prop :=
  (state d cs).kind = .final ∨ (state d cs).kind = .history ∨ (state d cs).kind = .atomic → cs = []

/-- Without a written kind a state with children is compound, and the kinds that are written here
may have children. -/
theorem StateTree.childlessByKind_of_branching {d : StateDecl} {cs : Assoc StateTree}
    (h : d.kind = none ∨ d.kind = some .parallel ∨ d.kind = some .compound) :
    ChildlessByKind d cs := by
  intro hends
  unfold StateTree.kind at hends
  rw [decl_state, children_state] at hends
  rcases h with h | h | h
  · rw [h] at hends
    cases cs with
    | nil => rfl
    | cons c cs => simp at hends
  · rw [h] at hends
    simp at hends
  · rw [h] at hends
    simp at hends

namespace Value

variable {entries : List (String × Value)} {own : List (String × Shape)} {v : Value} {key : String}
  {s : Shape} {t t' : StateTree} {d d' : StateDecl}

/-! ## 1. Types and states in a value -/

/-- What stands under a key fits the field that a kind of state has for it. -/
theorem fits_of_own (hd : Assoc.Distinct (Shape.commonFields ++ own ++ Shape.metadata))
    (h : Fits (Shape.stateWith own) (.object entries)) (hs : (key, s) ∈ own)
    (hv : (key, v) ∈ entries) : Fits s v := by
  have hfield : (key, s) ∈ Shape.commonFields ++ own ++ Shape.metadata :=
    List.mem_append_left _ (List.mem_append_right _ hs)
  cases h with
  | object hentries =>
    obtain ⟨s', hs', hfits⟩ := Shape.exists_field_of_none (hentries key v hv)
    obtain rfl := Option.some.inj ((hd.lookup_of_mem hfield).symm.trans (hd.lookup_of_mem hs'))
    exact hfits

theorem eq_of_fits_oneOfTexts {text : String} (h : Fits (.oneOfTexts [text]) v) :
    v = .string text := by
  cases h with
  | string h =>
    obtain rfl := List.mem_singleton.1 (h _ rfl)
    rfl

/-- A kind of state that demands that there are no states below keeps to it. -/
theorem undefined_of_noStates (hd : Assoc.Distinct (Shape.commonFields ++ own ++ Shape.metadata))
    (h : Fits (Shape.stateWith own) (.object entries)) (hs : Shape.noStates ∈ own)
    (hv : ("states", v) ∈ entries) : v = .undefined := by
  cases Shape.fits_optional.1 (fits_of_own hd h hs hv) with
  | undefined => rfl

/-- **A state says of the states below it at most that they are undefined, or its type is one of a
state that may have some.** -/
theorem undefined_or_branching (h : Fits (.rule .state) (.object entries)) :
    (∀ v, ("states", v) ∈ entries → v = .undefined) ∨
      ∀ v, ("type", v) ∈ entries → v = .string "parallel" ∨ v = .string "compound" := by
  obtain ⟨s, hs, h⟩ := Shape.fits_oneOf.1 (Shape.fits_rule.1 h)
  simp only [List.mem_cons, List.not_mem_nil, or_false] at hs
  rcases hs with rfl | rfl | rfl | rfl | rfl
  · exact .inl fun v hv => undefined_of_noStates (by decide) h (by simp) hv
  · refine .inr fun v hv => .inl ?_
    exact eq_of_fits_oneOfTexts (fits_of_own (by decide) h List.mem_cons_self hv)
  · exact .inl fun v hv => undefined_of_noStates (by decide) h (by simp) hv
  · refine .inr fun v hv => .inr ?_
    have hfits := fits_of_own (by decide) h List.mem_cons_self hv
    exact eq_of_fits_oneOfTexts (Shape.fits_optional.1 hfits)
  · exact .inl fun v hv => undefined_of_noStates (by decide) h (by simp) hv

/-! ## 2. Kinds and children that are read -/

/-- Only the entry of the type changes the kind. -/
theorem kind_of_readStateEntry (h : readStateEntry d key v = .ok d') :
    d'.kind = d.kind ∨ key = "type" ∧ ∃ k, readKind v = .ok k ∧ d'.kind = some k := by
  by_cases hkey : key = "type"
  · subst hkey
    obtain ⟨k, hk, h⟩ := Outcome.bind_eq_ok.1 h
    obtain rfl := Except.ok.inj h
    exact .inr ⟨rfl, k, hk, rfl⟩
  · refine .inl ?_
    unfold readStateEntry at h
    split at h
    all_goals
      first
      | exact absurd rfl hkey
      | obtain ⟨x, -, h⟩ := Outcome.bind_eq_ok.1 h
        obtain rfl := Except.ok.inj h
        rfl
      | obtain rfl := Except.ok.inj h
        rfl

/-- The kind is the one that is written last, if any is. -/
theorem kind_of_readTreeEntries (h : readTreeEntries t entries = .ok t') :
    t'.decl.kind = t.decl.kind ∨
      ∃ v k, ("type", v) ∈ entries ∧ readKind v = .ok k ∧ t'.decl.kind = some k := by
  induction entries generalizing t with
  | nil =>
    obtain rfl := Except.ok.inj h
    exact .inl rfl
  | cons entry rest ih =>
    obtain ⟨key, v⟩ := entry
    have hrest (t₁ : StateTree) (h : readTreeEntries t₁ rest = .ok t') :
        t'.decl.kind = t₁.decl.kind ∨ ∃ v' k, ("type", v') ∈ (key, v) :: rest ∧
          readKind v' = .ok k ∧ t'.decl.kind = some k := by
      rcases ih h with hkind | ⟨v', k, hv', hk⟩
      · exact .inl hkind
      · exact .inr ⟨v', k, List.mem_cons_of_mem _ hv', hk⟩
    rw [readTreeEntries_cons] at h
    split at h
    · obtain ⟨cs, -, h⟩ := Outcome.bind_eq_ok.1 h
      exact hrest (.state t.decl cs) h
    · obtain ⟨d, hd, h⟩ := Outcome.bind_eq_ok.1 h
      rcases hrest _ h with hkind | hkind
      · rw [StateTree.decl_state] at hkind
        rcases kind_of_readStateEntry (inside_eq_ok.1 hd) with hkeep | ⟨rfl, k, hk, hset⟩
        · exact .inl (hkind.trans hkeep)
        · exact .inr ⟨v, k, List.mem_cons_self, hk, hkind.trans hset⟩
      · exact .inr hkind

/-- Children are read under the key of the states below. -/
theorem children_of_readTreeEntries (h : readTreeEntries t entries = .ok t') :
    t'.children = t.children ∨
      ∃ v, ("states", v) ∈ entries ∧ readChildren v = .ok t'.children := by
  induction entries generalizing t with
  | nil =>
    obtain rfl := Except.ok.inj h
    exact .inl rfl
  | cons entry rest ih =>
    obtain ⟨key, v⟩ := entry
    rw [readTreeEntries_cons] at h
    split at h
    · next hkey =>
      subst hkey
      obtain ⟨cs, hcs, h⟩ := Outcome.bind_eq_ok.1 h
      rcases ih h with hchildren | ⟨v', hv', hread⟩
      · refine .inr ⟨v, List.mem_cons_self, ?_⟩
        rw [hchildren]
        exact inside_eq_ok.1 hcs
      · exact .inr ⟨v', List.mem_cons_of_mem _ hv', hread⟩
    · obtain ⟨d, -, h⟩ := Outcome.bind_eq_ok.1 h
      rcases ih h with hchildren | ⟨v', hv', hread⟩
      · exact .inl hchildren
      · exact .inr ⟨v', List.mem_cons_of_mem _ hv', hread⟩

theorem kind_withDefaultDepth (d : StateDecl) : (withDefaultDepth d).kind = d.kind := by
  unfold withDefaultDepth
  split <;> rfl

/-- **One state:** what is read has no children, or is of a kind that may have some. -/
theorem childlessByKind_of_read (h : Fits (.rule .state) (.object entries))
    (ht : readTreeEntries .empty entries = .ok t) :
    StateTree.ChildlessByKind (withDefaultDepth t.decl) t.children := by
  rcases undefined_or_branching h with hundefined | hbranching
  · intro _
    -- undefined states cannot be read, so there is no entry for them
    rcases children_of_readTreeEntries ht with hnone | ⟨v, hv, hread⟩
    · exact hnone
    · rw [hundefined v hv] at hread
      cases hread
  · refine StateTree.childlessByKind_of_branching ?_
    rw [kind_withDefaultDepth]
    rcases kind_of_readTreeEntries ht with hnone | ⟨v, k, hv, hread, hk⟩
    · exact .inl hnone
    · rcases hbranching v hv with rfl | rfl
      · obtain rfl := Except.ok.inj hread
        exact .inr (.inl hk)
      · obtain rfl := Except.ok.inj hread
        exact .inr (.inr hk)

mutual

/-- **All states:** no final, history or atomic state that is read has children. -/
theorem childlessByKind_of_readTree : {v : Value} → Fits (.rule .state) v → {t : StateTree} →
    readTree v = .ok t → t.Everywhere StateTree.ChildlessByKind
  | .object entries, h, t, ht => by
    obtain ⟨t₁, ht₁, ht⟩ := Outcome.bind_eq_ok.1 ht
    obtain rfl := Except.ok.inj ht
    obtain ⟨entries', he, hentries⟩ := exists_entries h
    obtain rfl := Value.object.inj he
    rw [StateTree.Everywhere]
    exact ⟨childlessByKind_of_read h ht₁,
      childlessByKind_of_readTreeEntries hentries .empty (by trivial) ht₁⟩
  | .array _, _, _, ht | .undefined, _, _, ht | .bool _, _, _, ht | .number _, _, _, ht
  | .string _, _, _, ht | .function, _, _, ht => by cases ht

theorem childlessByKind_of_readTreeEntries : {entries : List (String × Value)} →
    (∀ key v, (key, v) ∈ entries → StateEntry key v) → (t : StateTree) → {t' : StateTree} →
    StateTree.EverywhereIn StateTree.ChildlessByKind t.children →
    readTreeEntries t entries = .ok t' →
    StateTree.EverywhereIn StateTree.ChildlessByKind t'.children
  | [], _, t, t', ht, h => by
    obtain rfl := Except.ok.inj h
    exact ht
  | (key, v) :: rest, hentries, t, t', ht, h => by
    have hrest (key' : String) (v' : Value) (hv' : (key', v') ∈ rest) : StateEntry key' v' :=
      hentries key' v' (List.mem_cons_of_mem _ hv')
    rw [readTreeEntries_cons] at h
    split at h
    · next hkey =>
      subst hkey
      obtain ⟨cs, hcs, h⟩ := Outcome.bind_eq_ok.1 h
      have hread := inside_eq_ok.1 hcs
      rcases (hentries _ v List.mem_cons_self).of_states with rfl | hstates
      · cases hread
      · exact childlessByKind_of_readTreeEntries hrest (.state t.decl cs)
          (childlessByKind_of_readChildren hstates hread) h
    · obtain ⟨d, -, h⟩ := Outcome.bind_eq_ok.1 h
      exact childlessByKind_of_readTreeEntries hrest (.state d t.children) ht h

theorem childlessByKind_of_readChildren : {v : Value} → Fits Shape.states v →
    {cs : List (String × StateTree)} → readChildren v = .ok cs →
    StateTree.EverywhereIn StateTree.ChildlessByKind cs
  | .object entries, h, cs, hcs => by
    refine childlessByKind_of_readChildEntries (fun key c hc => ?_) hcs
    cases h with
    | object hentries => exact Shape.fits_of_record (hentries key c hc)
  | .array _, _, _, h | .undefined, _, _, h | .bool _, _, _, h | .number _, _, _, h
  | .string _, _, _, h | .function, _, _, h => by cases h

theorem childlessByKind_of_readChildEntries : {entries : List (String × Value)} →
    (∀ key c, (key, c) ∈ entries → Fits (.rule .state) c) → {cs : List (String × StateTree)} →
    readChildEntries entries = .ok cs → StateTree.EverywhereIn StateTree.ChildlessByKind cs
  | [], _, cs, h => by
    obtain rfl := Except.ok.inj h
    trivial
  | (key, c) :: rest, hentries, cs, h => by
    obtain ⟨t, ht, h⟩ := Outcome.bind_eq_ok.1 h
    obtain ⟨ts, hts, h⟩ := Outcome.bind_eq_ok.1 h
    obtain rfl := Except.ok.inj h
    rw [StateTree.EverywhereIn]
    exact ⟨childlessByKind_of_readTree (hentries key c List.mem_cons_self) (inside_eq_ok.1 ht),
      childlessByKind_of_readChildEntries
        (fun key' c' hc' => hentries key' c' (List.mem_cons_of_mem _ hc')) hts⟩

end

end Value

/-! ## 3. Graphs -/

namespace Graph

variable {t : StateTree} {provided : Provided} {g : Graph} {n : Node}

/-- A tree without such children is not refused for them. -/
theorem ofTree?_of_childlessByKind (ht : t.Everywhere StateTree.ChildlessByKind) {name : String}
    {kind : StateKind} : ofTree? t provided ≠ .error (.unexpectedChildren name kind) := by
  refine ofTree?_ne_unexpectedChildren (ht.imp fun d cs h hleaf => h ?_)
  cases hkind : (StateTree.state d cs).kind with
  | final => exact .inl rfl
  | history => exact .inr (.inl rfl)
  | atomic => exact .inr (.inr rfl)
  | compound =>
    rw [hkind] at hleaf
    cases hleaf
  | parallel =>
    rw [hkind] at hleaf
    cases hleaf

/-- The nodes of a tree without such children have none of them. -/
theorem states_of_childlessByKind (ht : t.Everywhere StateTree.ChildlessByKind)
    (hg : ofTree? t provided = .ok g) (hn : n ∈ g.nodes)
    (hkind : n.kind = .final ∨ n.kind = .history ∨ n.kind = .atomic) : n.states = [] := by
  obtain ⟨i, hi⟩ := List.mem_iff_getElem?.1 hn
  obtain ⟨path, parent, s, hs, hplace⟩ := located_of_node hg hi
  rw [kind_of_place hplace] at hkind
  exact (states_eq_nil_iff hplace).2 ((hs.everywhere_of ht).here hkind)

end Graph

/-! ## 4. Files -/

/-- The machines of a file have trees without such children. -/
theorem childlessByKind_of_definedMachines {t : Source.Tree} {settings : Settings}
    {machines : List DefinedMachine} (h : t.definedMachines settings = .ok machines)
    {dm : DefinedMachine} (hdm : dm ∈ machines) :
    dm.tree.Everywhere StateTree.ChildlessByKind := by
  obtain ⟨calls, -, h⟩ := Outcome.bind_eq_ok.1 h
  obtain ⟨call, -, hcall⟩ := Outcome.exists_left_of_mem (Outcome.mapM_eq_ok.1 h) hdm
  obtain ⟨v, hv⟩ := call.exists_definition hcall
  exact Value.childlessByKind_of_readTree (Shape.fits_of_readDefinition hv)
    (call.tree_of_machine hv hcall)

theorem Analysis.ofMachine_eq_ok {m : DefinedMachine} {a : Analysis} (h : ofMachine m = .ok a) :
    Graph.ofTree? m.tree m.provided = .ok a.graph := by
  unfold ofMachine at h
  split at h
  · next g hg =>
    obtain rfl := Except.ok.inj h
    exact hg
  · cases h

theorem Analysis.ofMachine_eq_build {m : DefinedMachine} {id : String} {e : BuildError}
    (h : ofMachine m = .error (.build id e)) : Graph.ofTree? m.tree m.provided = .error e := by
  unfold ofMachine at h
  split at h
  · cases h
  · next e' he =>
    obtain ⟨-, rfl⟩ := AnalysisError.build.inj (Except.error.inj h)
    exact he

/-- **Where no children are allowed none are declared.** In the tree of an accepted definition no
final, history or atomic state has children, on any level. So no file is reported for a state with
children that it may not have, and in every machine of a file the nodes of these kinds have none,
whatever the syntax tree of the file. -/
theorem childless_where_not_allowed (settings : Settings) :
    (∀ (scope : Scope) (e : Expression) (v : Value) (t : StateTree),
      Shape.readDefinition ⟨scope, settings⟩ e = .present v → v.readTree = .ok t →
        t.Everywhere StateTree.ChildlessByKind) ∧
    (∀ (t : Source.Tree) (id name : String) (kind : StateKind),
      Analysis.ofTree settings t ≠ .error (.build id (.unexpectedChildren name kind))) ∧
    ∀ (t : Source.Tree) (analyses : List Analysis), Analysis.ofTree settings t = .ok analyses →
      ∀ a ∈ analyses, ∀ n ∈ a.graph.nodes,
        n.kind = .final ∨ n.kind = .history ∨ n.kind = .atomic → n.states = [] := by
  refine ⟨fun scope e v t hv ht => ?_, fun t id name kind h => ?_,
    fun t analyses h a ha n hn hkind => ?_⟩
  · exact Value.childlessByKind_of_readTree (Shape.fits_of_readDefinition hv) ht
  · rcases Outcome.bind_eq_error.1 h with h | ⟨machines, hmachines, h⟩
    · obtain ⟨e, -, he⟩ := Outcome.mapError_eq_error.1 h
      cases he
    · obtain ⟨dm, hdm, h⟩ := Outcome.exists_of_mapM_eq_error h
      have htree := childlessByKind_of_definedMachines (Outcome.mapError_eq_ok.1 hmachines) hdm
      exact Graph.ofTree?_of_childlessByKind htree (Analysis.ofMachine_eq_build h)
  · obtain ⟨machines, hmachines, h⟩ := Outcome.bind_eq_ok.1 h
    obtain ⟨dm, hdm, hofMachine⟩ := Outcome.exists_left_of_mem (Outcome.mapM_eq_ok.1 h) ha
    have htree := childlessByKind_of_definedMachines (Outcome.mapError_eq_ok.1 hmachines) hdm
    exact Graph.states_of_childlessByKind htree (Analysis.ofMachine_eq_ok hofMachine) hn hkind

/-- The text of a file with states of three kinds, one of which has an empty object of states. -/
def playerText : String :=
  "import \x7b Machine \x7d from '@xstate/compiled';\n" ++
    "Machine<C, E, 'player'>(\x7b states: \x7b queue: \x7b states: \x7b\x7d \x7d, " ++
    "last: \x7b type: 'history' \x7d, over: \x7b type: 'final' \x7d \x7d \x7d);\n"

/-- The object of states that is empty makes its state an atomic one. -/
theorem childless_states_of_player :
    let queue := Expression.object [.keyed "states" (.object
      [.keyed "queue" (.object [.keyed "states" (.object [])])])]
    let value := Value.object [("states", .object [("queue", .object [("states", .object [])])])]
    let tree : StateTree := .state {} [("queue", .empty)]
    Shape.readDefinition ⟨[], {}⟩ queue = .present value ∧ value.readTree = .ok tree ∧
      tree.Everywhere StateTree.ChildlessByKind ∧
      ∃ a, Analysis.ofText .plain {} playerText = .ok [a] ∧
        a.graph.nodes.map (fun n => (n.key, n.kind)) = [("(machine)", .compound),
          ("queue", .atomic), ("last", .history), ("over", .final)] ∧
        ∀ n ∈ a.graph.nodes, n.kind = .final ∨ n.kind = .history ∨ n.kind = .atomic →
          n.states = [] := by
  intro queue value tree
  have hread : Shape.readDefinition ⟨[], {}⟩ queue = .present value := by rfl
  have htree : value.readTree = .ok tree := by rfl
  have htext : (Analysis.ofText .plain {} playerText).toOption.any (fun analyses =>
      analyses.map (fun a => a.graph.nodes.map fun n => (n.key, n.kind)) ==
        [[("(machine)", .compound), ("queue", .atomic), ("last", .history),
          ("over", .final)]]) = true := by decide +kernel
  obtain ⟨analyses, hok, hnodes⟩ := Outcome.exists_eq_ok htext
  obtain ⟨a, rfl, hkeys⟩ := List.map_eq_singleton_iff.1 (by simpa using hnodes)
  obtain ⟨hdefinition, -, hfile⟩ := childless_where_not_allowed {}
  exact ⟨hread, htree, hdefinition _ _ _ _ hread htree, a, hok, hkeys,
    hfile _ _ hok a List.mem_cons_self⟩

end Statechart
