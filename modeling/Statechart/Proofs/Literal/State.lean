import Statechart.Proofs.Literal.Read

/-!
# Definitions are read back from their literals

The shapes of states are tried in turn, and the literal of a state is turned down by all of them
before the one for its kind. Main statement: the literal of every tree that can be written, unless
it is nested too deep, is read, in either mode, and describes the tree again.
-/

namespace Statechart

namespace Shape

variable {cx : Context} {chooser : String} {n : Nat} {d : StateDecl}
  {cs : List (String × StateTree)} {below : Option Expression} {below' : Option Value}

/-! ## 1. The fields of a state -/

theorem distinct_literalFields : Assoc.Distinct (d.literalFields chooser below) := by
  show ["type", "id", "initial", "states", "on", "always", "after", "onDone", "invoke", "entry",
    "exit", "activities", "history", "target"].Nodup
  decide

theorem read_commonFields (hd : d.Expressible cx chooser cs) (hon : Assoc.Distinct d.on)
    (hafter : Assoc.Distinct d.after)
    (hn : ∀ key e, ((d.literalFields chooser below).lookup key).join = some e → e.nesting < n + 1) :
    ∀ field ∈ commonFields,
      read cx (n + 1) field.2 ((d.literalFields chooser below).lookup field.1).join =
        .ofField ((d.valueFields below').lookup field.1).join := by
  unfold commonFields
  simp only [List.forall_mem_cons]
  refine ⟨?_, ?_, ?_, ?_, ?_, ?_, ?_, ?_, ?_, List.forall_mem_nil _⟩
  · exact read_map? fun text _ => rfl
  · exact read_array? (hn "entry") fun hn => read_actions hn fun a ha => read_action (hd.entry a ha)
  · exact read_array? (hn "exit") fun hn => read_actions hn fun a ha => read_action (hd.exit a ha)
  · exact read_transitionMap hon hd.on (hn "on")
  · exact read_array? (hn "always") fun hn => read_transitions hd.always _ hn
  · exact read_transitionMap hafter hd.after (hn "after")
  · exact read_array? (hn "onDone") fun hn => read_transitions hd.onDone _ hn
  · exact read_array? (hn "invoke") fun hn => read_several hn (fun _ => rfl) fun i hi =>
      read_service (hd.invoke i hi).1 (hd.invoke i hi).2
  · exact read_array? (hn "activities") fun hn => read_several hn (fun _ => rfl)
      fun r _ => read_reference_of_nesting r

theorem read_metadata : ∀ field ∈ metadata,
    read cx (n + 1) field.2 ((d.literalFields chooser below).lookup field.1).join =
      .ofField ((d.valueFields below').lookup field.1).join := by
  unfold metadata
  simp only [List.map_cons, List.map_nil, List.forall_mem_cons]
  exact ⟨rfl, rfl, rfl, rfl, rfl, rfl, rfl, rfl, rfl, rfl, List.forall_mem_nil _⟩

section Alternatives

variable {own : List (String × Shape)}

/-- **A shape of states reads its common fields and its own**, where the fields that it does not
have are left out. -/
theorem read_stateWith (hd : d.Expressible cx chooser cs) (hon : Assoc.Distinct d.on)
    (hafter : Assoc.Distinct d.after)
    (hn : ∀ key e, ((d.literalFields chooser below).lookup key).join = some e → e.nesting < n + 1)
    (hown : ∀ field ∈ own,
      read cx (n + 1) field.2 ((d.literalFields chooser below).lookup field.1).join =
        .ofField ((d.valueFields below').lookup field.1).join)
    (hothers : ∀ key ∈ ["type", "initial", "states", "history", "target"],
      key ∈ Assoc.keys own ∨ ((d.literalFields chooser below).lookup key).join = none)
    (hvalue : ((commonFields ++ own ++ metadata).filterMap fun field =>
        ((d.valueFields below').lookup field.1).join.map (field.1, ·)) =
      Assoc.present (d.valueFields below')) :
    read cx (n + 2) (stateWith own) (some (.ofFields (d.literalFields chooser below))) =
      .present (.ofFields (d.valueFields below')) := by
  rw [Value.ofFields, ← hvalue]
  refine read_ofFields _ distinct_literalFields (fun field hf => ?_) fun key hkey => ?_
  · rcases List.mem_append.1 hf with hf | hf
    · rcases List.mem_append.1 hf with hf | hf
      · exact read_commonFields hd hon hafter hn field hf
      · exact hown field hf
    · exact read_metadata field hf
  · have hkeys : ∀ key ∈ ["type", "id", "initial", "states", "on", "always", "after", "onDone",
        "invoke", "entry", "exit", "activities", "history", "target"],
        key ∈ Assoc.keys commonFields ∨ key ∈ ["type", "initial", "states", "history", "target"] := by
      decide
    have happend : Assoc.keys (commonFields ++ own ++ metadata) =
        Assoc.keys commonFields ++ Assoc.keys own ++ Assoc.keys metadata := by
      unfold Assoc.keys
      rw [List.map_append, List.map_append]
    rw [happend]
    rcases hkeys key hkey with hcommon | hspecial
    · exact Or.inl (List.mem_append_left _ (List.mem_append_left _ hcommon))
    · rcases hothers key hspecial with hown | hnone
      · exact Or.inl (List.mem_append_left _ (List.mem_append_right _ hown))
      · exact Or.inr hnone

/-- A shape of states turns a literal down of which it turns one field down. -/
theorem read_stateWith_failed {field : String × Shape} (hf : field ∈ own)
    (h : read cx (n + 1) field.2 ((d.literalFields chooser below).lookup field.1).join = .failed) :
    read cx (n + 2) (stateWith own) (some (.ofFields (d.literalFields chooser below))) = .failed :=
  read_ofFields_failed distinct_literalFields
    (List.mem_append_left _ (List.mem_append_right _ hf)) h

end Alternatives

/-! ## 2. The alternatives -/

section Kinds

variable (hd : d.Expressible cx chooser cs) (hon : Assoc.Distinct d.on)
  (hafter : Assoc.Distinct d.after)
  (hn : ∀ key e, ((d.literalFields chooser below).lookup key).join = some e → e.nesting < n + 1)
include hd hon hafter hn

theorem read_finalState (hkind : d.kind = some .final) (hbelow : below = none) :
    read cx (n + 2) finalState (some (.ofFields (d.literalFields chooser below))) =
      .present (.ofFields (d.valueFields none)) := by
  have hinitial := hd.initial_eq_none (by rw [hkind]; decide) (by simp [hkind])
  have hhistory := hd.history_eq_none (by rw [hkind]; decide)
  have htarget := hd.target_eq_none (by rw [hkind]; decide)
  cases d
  subst hkind hinitial hhistory htarget hbelow
  refine read_stateWith hd hon hafter hn ?_ ?_ rfl
  · simp only [List.forall_mem_cons]
    exact ⟨rfl, rfl, List.forall_mem_nil _⟩
  · simp only [List.forall_mem_cons]
    exact ⟨Or.inl (by decide), Or.inr rfl, Or.inl (by decide), Or.inr rfl, Or.inr rfl,
      List.forall_mem_nil _⟩

theorem read_parallelState (hkind : d.kind = some .parallel)
    (hbelow : read cx (n + 1) (.optional states) below = .ofField below') :
    read cx (n + 2) parallelState (some (.ofFields (d.literalFields chooser below))) =
      .present (.ofFields (d.valueFields below')) := by
  have hinitial := hd.initial_eq_none (by rw [hkind]; decide) (by simp [hkind])
  have hhistory := hd.history_eq_none (by rw [hkind]; decide)
  have htarget := hd.target_eq_none (by rw [hkind]; decide)
  cases d
  subst hkind hinitial hhistory htarget
  refine read_stateWith hd hon hafter hn ?_ ?_ rfl
  · simp only [List.forall_mem_cons]
    exact ⟨rfl, hbelow, List.forall_mem_nil _⟩
  · simp only [List.forall_mem_cons]
    exact ⟨Or.inl (by decide), Or.inr rfl, Or.inl (by decide), Or.inr rfl, Or.inr rfl,
      List.forall_mem_nil _⟩

theorem read_historyState (hkind : d.kind = some .history) (hbelow : below = none) :
    read cx (n + 2) historyState (some (.ofFields (d.literalFields chooser below))) =
      .present (.ofFields (d.valueFields none)) := by
  have hinitial := hd.initial_eq_none (by rw [hkind]; decide) (by simp [hkind])
  cases d
  subst hkind hinitial hbelow
  refine read_stateWith hd hon hafter hn ?_ ?_ rfl
  · simp only [List.forall_mem_cons]
    refine ⟨rfl, ?_, ?_, rfl, List.forall_mem_nil _⟩
    · exact read_map? fun depth _ => by cases depth <;> rfl
    · exact read_map? fun target _ => rfl
  · simp only [List.forall_mem_cons]
    exact ⟨Or.inl (by decide), Or.inr rfl, Or.inl (by decide), Or.inl (by decide),
      Or.inl (by decide), List.forall_mem_nil _⟩

/-- A state without a declared kind is read as a compound one where its states are written. -/
theorem read_compoundState (hkind : d.kind = some .compound ∨ d.kind = none) {e : Expression}
    {v : Value} (he : below = some e) (hv : read cx (n + 1) states (some e) = .present v) :
    read cx (n + 2) compoundState (some (.ofFields (d.literalFields chooser below))) =
      .present (.ofFields (d.valueFields (some v))) := by
  have hhistory := hd.history_eq_none (by rcases hkind with h | h <;> rw [h] <;> decide)
  have htarget := hd.target_eq_none (by rcases hkind with h | h <;> rw [h] <;> decide)
  have htype : read cx (n + 1) (.optional (oneOfTexts ["compound"]))
      (d.kind.map fun k => .string k.word) = .ofField (d.kind.map fun k => .string k.word) := by
    rcases hkind with h | h <;> rw [h] <;> rfl
  cases d
  subst hhistory htarget he
  refine read_stateWith hd hon hafter hn ?_ ?_ rfl
  · simp only [List.forall_mem_cons]
    exact ⟨htype, read_map? fun child _ => rfl, hv, List.forall_mem_nil _⟩
  · simp only [List.forall_mem_cons]
    exact ⟨Or.inl (by decide), Or.inl (by decide), Or.inl (by decide), Or.inr rfl, Or.inr rfl,
      List.forall_mem_nil _⟩

/-- A state without a declared kind is read as an atomic one where no states are written. -/
theorem read_atomicState (hkind : d.kind = some .atomic ∨ d.kind = none) (hcs : cs = [])
    (hbelow : below = none) :
    read cx (n + 2) atomicState (some (.ofFields (d.literalFields chooser below))) =
      .present (.ofFields (d.valueFields none)) := by
  have hinitial := hd.initial_eq_none (by rcases hkind with h | h <;> rw [h] <;> decide) fun _ => hcs
  have hhistory := hd.history_eq_none (by rcases hkind with h | h <;> rw [h] <;> decide)
  have htarget := hd.target_eq_none (by rcases hkind with h | h <;> rw [h] <;> decide)
  have htype : read cx (n + 1) (.optional (oneOfTexts ["atomic"]))
      (d.kind.map fun k => .string k.word) = .ofField (d.kind.map fun k => .string k.word) := by
    rcases hkind with h | h <;> rw [h] <;> rfl
  cases d
  subst hinitial hhistory htarget hbelow
  refine read_stateWith hd hon hafter hn ?_ ?_ rfl
  · simp only [List.forall_mem_cons]
    exact ⟨htype, rfl, List.forall_mem_nil _⟩
  · simp only [List.forall_mem_cons]
    exact ⟨Or.inl (by decide), Or.inr rfl, Or.inl (by decide), Or.inr rfl, Or.inr rfl,
      List.forall_mem_nil _⟩

end Kinds

/-- A shape that demands another kind turns the literal down. -/
theorem read_stateWith_failed_of_kind {own : List (String × Shape)} {k : StateKind}
    (hf : ("type", oneOfTexts [k.word]) ∈ own) (hkind : d.kind ≠ some k) :
    read cx (n + 2) (stateWith own) (some (.ofFields (d.literalFields chooser below))) = .failed := by
  refine read_stateWith_failed hf ?_
  show read cx (n + 1) (oneOfTexts [k.word]) (d.kind.map fun k => .string k.word) = .failed
  cases hk : d.kind with
  | none => rfl
  | some k' =>
    have hword : [k.word].contains k'.word = false := by
      simpa using fun h : k'.word = k.word => hkind (hk.trans (congrArg some (StateKind.word_injective h)))
    show Reading.ofOption (if [k.word].contains k'.word then some (.string k'.word) else none) = _
    rw [hword]
    rfl

theorem read_finalState_failed (hkind : d.kind ≠ some .final) :
    read cx (n + 2) finalState (some (.ofFields (d.literalFields chooser below))) = .failed :=
  read_stateWith_failed_of_kind (k := .final) List.mem_cons_self hkind

theorem read_parallelState_failed (hkind : d.kind ≠ some .parallel) :
    read cx (n + 2) parallelState (some (.ofFields (d.literalFields chooser below))) = .failed :=
  read_stateWith_failed_of_kind (k := .parallel) List.mem_cons_self hkind

theorem read_historyState_failed (hkind : d.kind ≠ some .history) :
    read cx (n + 2) historyState (some (.ofFields (d.literalFields chooser below))) = .failed :=
  read_stateWith_failed_of_kind (k := .history) List.mem_cons_self hkind

/-- Without states below it, the literal is not that of a compound state. -/
theorem read_compoundState_failed :
    read cx (n + 2) compoundState (some (.ofFields (d.literalFields chooser none))) = .failed := by
  have hstates : ("states", states) ∈ [("type", .optional (oneOfTexts ["compound"])),
      ("initial", .optional text), ("states", states)] := by simp
  exact read_stateWith_failed hstates rfl

/-- The literal of a state that is not final, parallel or history is left to the last two shapes. -/
theorem read_compoundOrAtomic (hfinal : d.kind ≠ some .final) (hparallel : d.kind ≠ some .parallel)
    (hhistory : d.kind ≠ some .history) :
    read cx (n + 2) (ofRule .state) (some (.ofFields (d.literalFields chooser below))) =
      read cx (n + 2) (.oneOf [compoundState, atomicState])
        (some (.ofFields (d.literalFields chooser below))) := by
  rw [ofRule, read_oneOf_of_failed (read_finalState_failed hfinal),
    read_oneOf_of_failed (read_parallelState_failed hparallel),
    read_oneOf_of_failed (read_historyState_failed hhistory)]

/-- What is written of the states below a state, and what it is read to. -/
inductive BelowRead (cx : Context) (n : Nat) : Option Expression → Option Value → Prop
  | none : BelowRead cx n none none
  | some {e : Expression} {v : Value} (h : read cx (n + 1) states (some e) = .present v) :
      BelowRead cx n (some e) (some v)

theorem BelowRead.read_optional (h : BelowRead cx n below below') :
    read cx (n + 1) (.optional states) below = .ofField below' := by
  cases h with
  | none => rfl
  | some h => exact h

theorem BelowRead.eq_none (h : BelowRead cx n .none below') : below' = .none := by
  cases h
  rfl

/-- **The literal of a state is read by the alternative for its kind**, where that of the states
below it is read. -/
theorem read_alternatives (hd : d.Expressible cx chooser cs) (hon : Assoc.Distinct d.on)
    (hafter : Assoc.Distinct d.after)
    (hn : ∀ key e, ((d.literalFields chooser below).lookup key).join = some e → e.nesting < n + 1)
    (hbelow : BelowRead cx n below below')
    (hwritten : below = none ↔ cs = [] ∧ d.kind ≠ some .compound) :
    read cx (n + 2) (ofRule .state) (some (.ofFields (d.literalFields chooser below))) =
      .present (.ofFields (d.valueFields below')) := by
  cases hkind : d.kind with
  | none =>
    rw [read_compoundOrAtomic (by rw [hkind]; decide) (by rw [hkind]; decide) (by rw [hkind]; decide)]
    cases hbelow with
    | none =>
      obtain ⟨hcs, -⟩ := hwritten.1 rfl
      rw [read_oneOf_of_failed read_compoundState_failed]
      exact read_oneOf_of_present (read_atomicState hd hon hafter hn (Or.inr hkind) hcs rfl)
    | some h =>
      exact read_oneOf_of_present (read_compoundState hd hon hafter hn (Or.inr hkind) rfl h)
  | some kind =>
    cases kind with
    | final =>
      obtain rfl := hwritten.2 ⟨hd.leaf (Or.inl hkind), by rw [hkind]; decide⟩
      obtain rfl := hbelow.eq_none
      exact read_oneOf_of_present (read_finalState hd hon hafter hn hkind rfl)
    | parallel =>
      rw [ofRule, read_oneOf_of_failed (read_finalState_failed (by rw [hkind]; decide))]
      exact read_oneOf_of_present
        (read_parallelState hd hon hafter hn hkind hbelow.read_optional)
    | history =>
      obtain rfl := hwritten.2 ⟨hd.leaf (Or.inr (Or.inl hkind)), by rw [hkind]; decide⟩
      obtain rfl := hbelow.eq_none
      rw [ofRule, read_oneOf_of_failed (read_finalState_failed (by rw [hkind]; decide)),
        read_oneOf_of_failed (read_parallelState_failed (by rw [hkind]; decide))]
      exact read_oneOf_of_present (read_historyState hd hon hafter hn hkind rfl)
    | compound =>
      rw [read_compoundOrAtomic (by rw [hkind]; decide) (by rw [hkind]; decide)
        (by rw [hkind]; decide)]
      cases hbelow with
      | none => exact absurd hkind (hwritten.1 rfl).2
      | some h =>
        exact read_oneOf_of_present (read_compoundState hd hon hafter hn (Or.inl hkind) rfl h)
    | atomic =>
      have hcs := hd.leaf (Or.inr (Or.inr hkind))
      obtain rfl := hwritten.2 ⟨hcs, by rw [hkind]; decide⟩
      obtain rfl := hbelow.eq_none
      rw [read_compoundOrAtomic (by rw [hkind]; decide) (by rw [hkind]; decide)
        (by rw [hkind]; decide), read_oneOf_of_failed read_compoundState_failed]
      exact read_oneOf_of_present
        (read_atomicState hd hon hafter hn (Or.inl hkind) hcs rfl)

/-! ## 3. Trees -/

mutual

/-- **The literal of a tree that can be written is read to its value**, within levels enough for
its nesting. -/
theorem read_tree : {t : StateTree} → t.Expressible cx chooser → t.KeysDistinct →
    (levels : Nat) → (t.literal chooser).nesting < levels →
      read cx levels (.rule .state) (some (t.literal chooser)) = .present t.value
  | .state d cs, h, ht, levels, hn => by
    rw [StateTree.Expressible, StateTree.Everywhere] at h
    rw [StateTree.KeysDistinct] at ht
    obtain ⟨hd, hcs⟩ := h
    obtain ⟨hkeys, hon, hafter, htrees⟩ := ht
    obtain ⟨n, rfl, hfields⟩ := Expression.exists_levels_ofFields hn
    have hread (hw : d.writesStates cs = true) : read cx (n + 1) states
        (some (.record (StateTree.literals chooser cs))) =
          .present (.object (StateTree.values cs)) := by
      have hrecord : (Expression.record (StateTree.literals chooser cs)).nesting < n + 1 := by
        refine hfields "states" _ ?_
        show (if d.writesStates cs then _ else _) = _
        rw [if_pos hw]
      obtain ⟨m, hlevels, hcs'⟩ := Expression.exists_levels_record hrecord
      obtain rfl := Nat.succ.inj hlevels
      rw [StateTree.literals_eq] at hcs' ⊢
      rw [StateTree.values_eq]
      refine read_record (StateTree.literal chooser) StateTree.value hkeys fun key t hmem => ?_
      exact read_trees hcs htrees key t hmem _ (hcs' key _ (List.mem_map_of_mem hmem))
    rw [read_rule]
    refine read_alternatives hd hon hafter hfields ?_ ?_
    · split
      · next hw => exact .some (hread hw)
      · exact .none
    · rw [← StateDecl.writesStates_eq_false]
      cases d.writesStates cs with
      | true => simp
      | false => exact ⟨fun _ => rfl, fun _ => rfl⟩

theorem read_trees : {cs : List (String × StateTree)} →
    StateTree.EverywhereIn (fun d cs => d.Expressible cx chooser cs) cs →
    StateTree.KeysDistinctAll cs → ∀ key t, (key, t) ∈ cs → ∀ levels,
      (t.literal chooser).nesting < levels →
        read cx levels (.rule .state) (some (t.literal chooser)) = .present t.value
  | [], _, _, _, _, hmem, _, _ => by cases hmem
  | (_, t') :: rest, h, ht, key, t, hmem, levels, hn => by
    rw [StateTree.EverywhereIn] at h
    rw [StateTree.KeysDistinctAll] at ht
    rcases List.mem_cons.1 hmem with he | hmem
    · obtain ⟨-, rfl⟩ := Prod.mk.inj he
      exact read_tree h.1 ht.1 levels hn
    · exact read_trees h.2 ht.2 key t hmem levels hn

end

end Shape

/-- **A tree that can be written is read back from its literal**, in either mode, unless the
literal is nested too deep. -/
theorem StateTree.readTree_literal (cx : Context) (chooser : String) {t : StateTree}
    (ht : t.KeysDistinct) (h : t.Expressible cx chooser)
    (hn : (t.literal chooser).nesting ≤ Shape.maxNesting) :
    ∃ v, Shape.readDefinition cx (t.literal chooser) = .present v ∧ v.readTree = .ok t :=
  ⟨t.value, Shape.read_tree h ht _ (Nat.lt_succ_of_le hn), Value.readTree_value h⟩

/-- A lamp that remembers how bright it was. -/
def lamp : StateTree :=
  .state { id := some "lamp", initial := some "off" } [
    ("off", .state {
      on := [("TOGGLE", [{ targets := ["on"], cond := some .inline }])]
      entry := [.choose [.mk (some (.named "dark")) [.builtin "xstate.log"]]] } []),
    ("on", .state { kind := some .parallel, exit := [.named "dim"] } [("bright", .empty)]),
    ("last", .state {
      kind := some .history, history := some .deep, target := some "off" } [])]

/-- A file that imports the creator of choices under a name of its own. -/
def pickContext : Context := ⟨[("pick", .imported "xstate" (.named "choose"))], {}⟩

theorem keysDistinct_lamp : lamp.KeysDistinct := by
  simp [lamp, StateTree.KeysDistinct, StateTree.KeysDistinctAll, StateTree.empty, Assoc.Distinct]

theorem expressible_lamp : lamp.Expressible pickContext "pick" := by
  have himports : pickContext.ImportsChoose "pick" := ⟨"xstate", rfl, rfl⟩
  have hlog : Action.Expressible pickContext "pick" (.builtin "xstate.log") :=
    .builtin (by decide) (by decide)
  have hchoose : Action.Expressible pickContext "pick"
      (.choose [.mk (some (.named "dark")) [.builtin "xstate.log"]]) :=
    .choose himports (by simpa using hlog)
  simp only [lamp, StateTree.empty, StateTree.Expressible, StateTree.Everywhere,
    StateTree.EverywhereIn, and_true]
  refine ⟨?_, ?_, ⟨?_, ?_⟩, ?_⟩
  · constructor <;> simp
  · constructor <;> simp [TransitionDecl.Expressible, hchoose]
  · constructor <;> simp [Action.Expressible.named]
  · constructor <;> simp
  · constructor <;> simp

theorem readTree_literal_lamp :
    ∃ v, Shape.readDefinition pickContext (lamp.literal "pick") = .present v ∧
      v.readTree = .ok lamp :=
  StateTree.readTree_literal pickContext "pick" keysDistinct_lamp expressible_lamp (by decide)

end Statechart
