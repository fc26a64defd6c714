import Statechart.Proofs.Value.Loops
import Statechart.Proofs.Value.Misfit

/-!
# What a misfit is about

A path of keys and positions leads from a value to what stands inside it. Main statement: the path
of a misfit leads to a value that is there, and that value is not of the form which is asked for.
-/

namespace Statechart

/-! ## 1. Paths into values -/

namespace Value

/-- One step into a value: to what an object has under a key, or to an item of an array. -/
inductive PathStep
  | key (name : String)
  | position (i : Nat)
deriving DecidableEq, Repr

/-- The text of a step in a path. -/
def PathStep.text : PathStep → String
  | key name => name
  | position i => toString i

/-- **The steps lead from the first value to the second.** -/
inductive Leads : Value → List PathStep → Value → Prop
  | here (v : Value) : Leads v [] v
  | key {entries : List (String × Value)} {name : String} {v w : Value} {steps : List PathStep}
      (h : (name, v) ∈ entries) (rest : Leads v steps w) :
      Leads (.object entries) (.key name :: steps) w
  | position {items : List Value} {i : Nat} {v w : Value} {steps : List PathStep}
      (h : items[i]? = some v) (rest : Leads v steps w) :
      Leads (.array items) (.position i :: steps) w

end Value

/-- **The value is not of the form that is asked for.** -/
def Expectation.FailedBy : Expectation → Value → Prop
  | object, v => ∀ entries, v ≠ .object entries
  | string, v => ∀ s, v ≠ .string s
  | stateType, v => ∃ s, v = .string s ∧ ∀ k : StateKind, k.word ≠ s
  | invokeSource, v => ∃ entries, v = .object entries ∧ "src" ∉ Assoc.keys entries
  | typedObject, v | typedAction, v =>
    ∃ entries, v = .object entries ∧ ∀ s, entries.lookup "type" ≠ some (.string s)
  | nameOrImplementation, v =>
    (∀ s, v ≠ .string s) ∧ v ≠ .function ∧ ∀ entries, v ≠ .object entries

namespace Value

/-- The misfit is about something in the value. -/
def Holds (v : Value) (m : Misfit) : Prop :=
  ∃ steps w, v.Leads steps w ∧ m.path = steps.map PathStep.text ∧ m.expected.FailedBy w

/-- Whatever misfit the reading ends with, the value holds it. -/
def Explains {α : Type} (v : Value) (r : Read α) : Prop := ∀ m, r = .error m → v.Holds m

/-! ## 2. One step -/

section Steps

variable {α β : Type} {v w : Value} {entries : List (String × Value)} {key : String}

theorem explains_ok (v : Value) (a : α) : v.Explains (.ok a : Read α) := by
  intro m h
  cases h

theorem explains_misfit {expected : Expectation} (h : expected.FailedBy v) :
    v.Explains (misfit expected : Read α) := by
  intro m hm
  obtain rfl := Except.error.inj hm
  exact ⟨[], v, .here v, rfl, h⟩

theorem explains_no_object (h : ∀ entries, v ≠ .object entries) :
    v.Explains (misfit .object : Read α) :=
  explains_misfit h

theorem explains_no_string (h : ∀ s, v ≠ .string s) : v.Explains (misfit .string : Read α) :=
  explains_misfit h

theorem explains_no_name (hstring : ∀ s, v ≠ .string s) (hfunction : v ≠ .function)
    (hobject : ∀ entries, v ≠ .object entries) :
    v.Explains (misfit .nameOrImplementation : Read α) :=
  explains_misfit ⟨hstring, hfunction, hobject⟩

theorem Explains.bind {x : Read α} {f : α → Read β} (hx : v.Explains x)
    (hf : ∀ a, v.Explains (f a)) : v.Explains (x >>= f) := by
  intro m hm
  rcases Outcome.bind_eq_error.1 hm with hm | ⟨a, -, hm⟩
  · exact hx m hm
  · exact hf a m hm

theorem Explains.map {x : Read α} (hx : v.Explains x) (f : α → β) : v.Explains (x.map f) := by
  intro m hm
  cases x with
  | ok a => cases hm
  | error m' => exact hx m (congrArg Except.error (Except.error.inj hm))

/-- What is read inside a value is explained inside of it. -/
theorem Explains.inside {r : Read α} (hr : w.Explains r) (step : PathStep)
    (hstep : ∀ steps u, w.Leads steps u → v.Leads (step :: steps) u) :
    v.Explains (inside step.text r) := by
  intro m hm
  obtain ⟨m', hm', rfl⟩ := inside_eq_error.1 hm
  obtain ⟨steps, u, hleads, hpath, hfails⟩ := hr m' hm'
  exact ⟨step :: steps, u, hstep steps u hleads, congrArg (step.text :: ·) hpath, hfails⟩

theorem Explains.inside_key {r : Read α} (hr : w.Explains r) (h : (key, w) ∈ entries) :
    (object entries).Explains (Value.inside key r) :=
  hr.inside (.key key) fun _ _ => .key h

theorem Explains.inside_position {r : Read α} (hr : w.Explains r) {items : List Value} {i : Nat}
    (h : items[i]? = some w) : (array items).Explains (Value.inside (toString i) r) :=
  hr.inside (.position i) fun _ _ => .position h

theorem explains_foldlM {step : β → α → Read β} {as : List α}
    (h : ∀ a ∈ as, ∀ b, v.Explains (step b a)) (b : β) : v.Explains (as.foldlM step b) := by
  induction as generalizing b with
  | nil => exact explains_ok v b
  | cons a as ih =>
    rw [List.foldlM_cons]
    obtain ⟨ha, has⟩ := List.forall_mem_cons.1 h
    exact (ha b).bind fun b' => ih has b'

theorem explains_mapM {f : α → Read β} {as : List α} (h : ∀ a ∈ as, v.Explains (f a)) :
    v.Explains (as.mapM f) := by
  intro m hm
  obtain ⟨a, ha, hm⟩ := Outcome.exists_of_mapM_eq_error hm
  exact h a ha m hm

/-- The items of an array from a position on. -/
theorem explains_readItems {f : Value → Read α} {items rest : List Value} {i : Nat}
    (hrest : items.drop i = rest) (h : ∀ w ∈ items, w.Explains (f w)) :
    (array items).Explains (readItems f i rest) := by
  induction rest generalizing i with
  | nil => exact explains_ok _ _
  | cons w rest ih =>
    have hw : items[i]? = some w := by
      rw [← List.head?_drop, hrest]
      rfl
    have hnext : items.drop (i + 1) = rest := by
      rw [← List.tail_drop, hrest]
      rfl
    have hread := h w (List.mem_of_getElem? hw)
    exact (hread.inside_position hw).bind fun a => (ih hnext).bind fun as => explains_ok _ _

/-- A value that is read as an item, or an array of such items. -/
theorem explains_readEach {f : Value → Read α} (v : Value) (hv : v.Explains (f v))
    (h : ∀ w : Value, w.PartOf v → w.Explains (f w)) : v.Explains (readEach f v) := by
  cases v with
  | array items => exact explains_readItems rfl fun w hw => h w (.item hw)
  | _ => exact hv.map _

end Steps

/-! ## 3. Texts, references and actions -/

theorem explains_readString (v : Value) : v.Explains (readString v) := by
  cases v with
  | string s => exact explains_ok _ s
  | _ => exact explains_no_string (by simp)

theorem explains_readObject (v : Value) : v.Explains (readObject v) := by
  cases v with
  | object entries => exact explains_ok _ entries
  | _ => exact explains_no_object (by simp)

theorem explains_readRef (v : Value) : v.Explains (readRef v) := by
  cases v with
  | string name => exact explains_ok _ _
  | function => exact explains_ok _ _
  | object entries =>
    rw [readRef]
    split
    · exact explains_ok _ _
    · next hname => exact explains_misfit ⟨entries, rfl, hname⟩
  | _ => exact explains_no_name (by simp) (by simp) (by simp)

theorem explains_readPlainAction {v : Value} (h : ∀ entries, v ≠ .object entries) :
    v.Explains (readPlainAction v) := by
  cases v with
  | string name => exact explains_ok _ _
  | function => exact explains_ok _ _
  | object entries => exact absurd rfl (h entries)
  | _ => exact explains_no_name (by simp) (by simp) h

section Actions

variable {entries : List (String × Value)}

theorem explains_typedAction {branches : Read (List Branch)}
    (h : (object entries).Explains branches) :
    (object entries).Explains (typedAction entries branches) := by
  unfold typedAction
  split
  · split
    · exact h.map _
    · split
      · exact explains_ok _ _
      · exact explains_ok _ _
  · next hname => exact explains_misfit ⟨entries, rfl, hname⟩

theorem explains_branchOf {actions : Read (List Action)} (h : (object entries).Explains actions) :
    (object entries).Explains (branchOf entries actions) := by
  unfold branchOf
  split
  · next v hv =>
    have hread := (explains_readRef v).inside_key (Assoc.mem_of_lookup hv)
    exact (hread.map some).bind fun cond => h.bind fun as => explains_ok _ _
  · exact (explains_ok _ none).bind fun cond => h.bind fun as => explains_ok _ _

/-- An action, a branch, and several of either. -/
theorem explains_readAction_readBranch (v : Value) :
    (v.Explains (readAction v) ∧ v.Explains (readActions v)) ∧
      v.Explains (readBranch v) ∧ v.Explains (readBranches v) := by
  induction v using induction_on_parts with
  | step v ih =>
    have haction : v.Explains (readAction v) := by
      cases v with
      | object entries =>
        rw [readAction]
        refine explains_typedAction ?_
        rw [readBranchesIn_eq]
        split
        · next branches hbranches =>
          have hmem := Assoc.mem_of_lookup hbranches
          exact (ih branches (.entry hmem)).2.2.inside_key hmem
        · exact explains_ok _ _
      | _ => exact explains_readPlainAction (by simp)
    have hbranch : v.Explains (readBranch v) := by
      cases v with
      | object entries =>
        rw [readBranch]
        refine explains_branchOf ?_
        rw [readActionsIn_eq]
        split
        · next actions hactions =>
          have hmem := Assoc.mem_of_lookup hactions
          exact (ih actions (.entry hmem)).1.2.inside_key hmem
        · exact explains_ok _ _
      | _ => exact explains_no_object (by simp)
    refine ⟨⟨haction, ?_⟩, hbranch, ?_⟩
    · rw [readActions_eq]
      exact explains_readEach v haction fun w hw => (ih w hw).1.1
    · rw [readBranches_eq]
      exact explains_readEach v hbranch fun w hw => (ih w hw).2.1

theorem explains_readActions (v : Value) : v.Explains (readActions v) :=
  (explains_readAction_readBranch v).1.2

end Actions

/-! ## 4. Transitions and services -/

theorem explains_readTargets (v : Value) : v.Explains (readTargets v) := by
  cases v with
  | undefined => exact explains_ok _ []
  | _ => exact explains_readEach _ (explains_readString _) fun w _ => explains_readString w

theorem explains_readTransitionEntry (t : TransitionDecl) (key : String) (v : Value) :
    v.Explains (readTransitionEntry t key v) := by
  unfold readTransitionEntry
  split
  · exact (explains_readTargets v).bind fun _ => explains_ok v _
  · exact (explains_readRef v).bind fun _ => explains_ok v _
  · exact (explains_readActions v).bind fun _ => explains_ok v _
  · exact explains_ok v _
  · exact explains_ok v t

theorem explains_readTransition (v : Value) : v.Explains (readTransition v) := by
  cases v with
  | object entries =>
    exact explains_foldlM (fun entry hentry t =>
      (explains_readTransitionEntry t entry.1 entry.2).inside_key hentry) _
  | _ => exact (explains_readTargets _).bind fun _ => explains_ok _ _

theorem explains_readTransitions (v : Value) : v.Explains (readTransitions v) := by
  cases v with
  | undefined => exact explains_ok _ []
  | array items =>
    rw [readTransitions]
    split
    · exact explains_ok _ []
    · split
      · exact (explains_readTargets _).bind fun _ => explains_ok _ _
      · exact explains_readItems rfl fun w _ => explains_readTransition w
  | _ => exact (explains_readTransition _).map fun t => [t]

theorem explains_readTransitionMap (v : Value) : v.Explains (readTransitionMap v) := by
  cases v with
  | object entries =>
    exact explains_mapM fun entry hentry =>
      ((explains_readTransitions entry.2).inside_key hentry).bind fun _ => explains_ok _ _
  | _ => exact explains_no_object (by simp)

theorem explains_readInvokeEntry (i : InvokeDecl) (key : String) (v : Value) :
    v.Explains (readInvokeEntry i key v) := by
  unfold readInvokeEntry
  split
  · exact (explains_readString v).bind fun _ => explains_ok v _
  · exact (explains_readTransitions v).bind fun _ => explains_ok v _
  · exact (explains_readTransitions v).bind fun _ => explains_ok v _
  · exact explains_ok v _
  · exact explains_ok v i

theorem explains_readInvoke (v : Value) : v.Explains (readInvoke v) := by
  cases v with
  | object entries =>
    have hobject : readObject (.object entries) = .ok entries := rfl
    rw [readInvoke, hobject, Outcome.ok_bind]
    split
    · next hsrc =>
      refine explains_misfit ⟨entries, rfl, fun hmem => ?_⟩
      obtain ⟨⟨key, src⟩, hentry, rfl⟩ := List.mem_map.1 hmem
      obtain ⟨src', hsrc'⟩ := Assoc.exists_lookup_of_mem hentry
      cases hsrc.symm.trans hsrc'
    · next src hsrc =>
      have hread := (explains_readRef src).inside_key (Assoc.mem_of_lookup hsrc)
      refine hread.bind fun src => explains_foldlM (fun entry hentry i => ?_) _
      exact (explains_readInvokeEntry i entry.1 entry.2).inside_key hentry
  | _ => exact explains_no_object (by simp)

/-! ## 5. States -/

theorem explains_readKind (v : Value) : v.Explains (readKind v) := by
  cases v with
  | string s =>
    have hstring : readString (.string s) = .ok s := rfl
    rw [readKind, hstring, Outcome.ok_bind]
    split
    · exact explains_ok _ _
    · next hword =>
      refine explains_misfit ⟨s, rfl, fun k hk => ?_⟩
      rw [← hk, StateKind.ofWord?_word] at hword
      cases hword
  | _ => exact explains_no_string (by simp)

theorem explains_readStateEntry (d : StateDecl) (key : String) (v : Value) :
    v.Explains (readStateEntry d key v) := by
  unfold readStateEntry
  split
  · exact (explains_readString v).bind fun _ => explains_ok v _
  · exact (explains_readKind v).bind fun _ => explains_ok v _
  · exact (explains_readString v).bind fun _ => explains_ok v _
  · exact (explains_readTransitionMap v).bind fun _ => explains_ok v _
  · exact (explains_readTransitionMap v).bind fun _ => explains_ok v _
  · exact (explains_readTransitions v).bind fun _ => explains_ok v _
  · exact (explains_readTransitions v).bind fun _ => explains_ok v _
  · have heach := explains_readEach v (explains_readInvoke v) fun w _ => explains_readInvoke w
    exact heach.bind fun _ => explains_ok v _
  · exact (explains_readActions v).bind fun _ => explains_ok v _
  · exact (explains_readActions v).bind fun _ => explains_ok v _
  · have heach := explains_readEach v (explains_readRef v) fun w _ => explains_readRef w
    exact heach.bind fun _ => explains_ok v _
  · exact explains_ok v _
  · exact (explains_readString v).bind fun _ => explains_ok v _
  · exact explains_ok v d

/-- A state, and the states under their keys. -/
theorem explains_readTree_readChildren (v : Value) :
    v.Explains (readTree v) ∧ v.Explains (readChildren v) := by
  induction v using induction_on_parts with
  | step v ih =>
    cases v with
    | object entries =>
      constructor
      · rw [readTree, readTreeEntries_eq]
        refine (explains_foldlM (fun entry hentry t => ?_) _).bind fun t => explains_ok _ _
        refine Explains.inside_key ?_ hentry
        unfold readTreeEntry
        split
        · exact (ih entry.2 (.entry hentry)).2.map _
        · exact (explains_readStateEntry _ _ _).map _
      · rw [readChildren, readChildEntries_eq]
        refine explains_mapM fun entry hentry => ?_
        exact ((ih entry.2 (.entry hentry)).1.inside_key hentry).map _
    | _ =>
      constructor
      · exact explains_no_object (by simp)
      · exact explains_no_object (by simp)

/-! ## 6. Provided implementations -/

theorem explains_readProvided (v : Value) : v.Explains (readProvided v) := by
  cases v with
  | object entries =>
    refine explains_foldlM (fun h _ p => ?_) _
    unfold readProvidedIn
    split
    · exact explains_ok _ p
    · next v hv =>
      have hread := (explains_readObject v).inside_key (Assoc.mem_of_lookup hv)
      exact hread.bind fun names => explains_ok _ _
  | _ => exact explains_no_object (by simp)

/-- **A misfit is about the value its path leads to.** Where any value is read as a definition or as
provided implementations and there is a misfit, some keys and positions, which its path is the text
of, lead to a value that is there and is not of the form which is asked for. -/
theorem exists_offender (v : Value) (m : Misfit)
    (h : readTree v = .error m ∨ readProvided v = .error m) :
    ∃ steps w, v.Leads steps w ∧ m.dotted = Dotted.join (steps.map PathStep.text) ∧
      m.expected.FailedBy w := by
  have hholds : v.Holds m := by
    rcases h with h | h
    · exact (explains_readTree_readChildren v).1 m h
    · exact explains_readProvided v m h
  obtain ⟨steps, w, hleads, hpath, hfails⟩ := hholds
  exact ⟨steps, w, hleads, congrArg Dotted.join hpath, hfails⟩

/-- In the second transition of an event, the first branch of a choice has a truth value for its
guard; and among provided implementations a name stands for the table of guards. -/
theorem offender_in_choice :
    let branch := Value.object [("cond", .bool true)]
    let choice := Value.object [("type", .string chooseType), ("conds", .array [branch])]
    let idle := Value.object [("on", .object [("go",
      .array [.string "b", .object [("actions", choice)]])])]
    let v := Value.object [("states", .object [("a", idle)])]
    let m : Misfit := ⟨["states", "a", "on", "go", "1", "actions", "conds", "0", "cond"],
      .nameOrImplementation⟩
    let provided := Value.object [("actions", .object [("ring", .function)]),
      ("guards", .string "ready")]
    let m' : Misfit := ⟨["guards"], .object⟩
    (readTree v = .error m ∧ m.dotted = "states.a.on.go.1.actions.conds.0.cond" ∧
      ∃ steps w, v.Leads steps w ∧ m.dotted = Dotted.join (steps.map PathStep.text) ∧
        m.expected.FailedBy w) ∧
    readProvided provided = .error m' ∧ m'.dotted = "guards" ∧
      ∃ steps w, provided.Leads steps w ∧ m'.dotted = Dotted.join (steps.map PathStep.text) ∧
        m'.expected.FailedBy w := by
  intro branch choice idle v m provided m'
  have hread : readTree v = .error m := by rfl
  have hread' : readProvided provided = .error m' := by rfl
  exact ⟨⟨hread, by rfl, exists_offender v m (.inl hread)⟩, hread', by rfl,
    exists_offender provided m' (.inr hread')⟩

end Value

end Statechart
