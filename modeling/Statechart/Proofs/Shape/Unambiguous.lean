import Statechart.Proofs.Shape.Stable

/-!
# Definitions without ambiguity

In the shapes of definitions no two alternatives are ever taken for one another: most are told
apart by their forms, states by their types and the states below them, and several targets from
several transitions by being texts. Main statement: a reader that is no stricter reads a definition,
and provided implementations, as any other that accepts them.
-/

namespace Statechart.Shape

/-! ## 1. Data and references -/

theorem unambiguous_text : Unambiguous text := .plain (by simp [Plain, text])

theorem unambiguous_oneOfTexts (texts : List String) : Unambiguous (oneOfTexts texts) :=
  .plain (by simp [Plain, oneOfTexts])

theorem unambiguous_bool : Unambiguous .bool := .plain (by simp [Plain])

theorem unambiguous_undefined : Unambiguous .undefined := .plain (by simp [Plain])

theorem unambiguous_function : Unambiguous .function := .plain (by simp [Plain])

theorem unambiguous_record {s : Shape} (h : Unambiguous s) : Unambiguous (record s) :=
  .object (List.forall_mem_nil _) fun t ht => by
    obtain rfl := Option.some.inj ht
    exact h

theorem unambiguous_typed : Unambiguous typed :=
  .object (by simpa using unambiguous_text) fun t ht => by
    obtain rfl := Option.some.inj ht
    exact .ignored

/-- Alternatives of different forms are no ambiguity. -/
theorem unambiguous_of_forms {alternatives : List Shape} (h : ∀ s ∈ alternatives, Unambiguous s)
    (forms : List Form) (hforms : alternatives.map form? = forms.map some)
    (hnodup : forms.Nodup) : Unambiguous (.oneOf alternatives) :=
  .oneOf h ((pairwise_disjoint_of_forms forms hforms hnodup).imp Disjoint.apart)

/-- One thing is not taken for several, unless it might be an array. -/
theorem unambiguous_oneOrMore {s : Shape} (hs : Unambiguous s) (h : Apart s (.array s)) :
    Unambiguous (oneOrMore s) := by
  refine .oneOf ?_ (List.pairwise_pair.2 h)
  simp only [List.forall_mem_cons]
  exact ⟨hs, hs.array, List.forall_mem_nil _⟩

theorem unambiguous_reference : Unambiguous reference := by
  refine unambiguous_of_forms ?_ [.string, .function, .object] rfl (by decide)
  simp only [List.forall_mem_cons]
  exact ⟨unambiguous_text, unambiguous_function, unambiguous_typed, List.forall_mem_nil _⟩

theorem unambiguous_references : Unambiguous (oneOrMore reference) :=
  unambiguous_oneOrMore unambiguous_reference
    (disjoint_oneOf_of_forms [.string, .function, .object] rfl rfl (by decide)).apart

/-! ## 2. Actions and transitions -/

theorem unambiguous_actions : Unambiguous actions := by
  have hdisjoint : Disjoint (ofRule .action) (.array (.rule .action)) :=
    disjoint_oneOf_of_forms [.string, .function, .object, .call] rfl rfl (by decide)
  exact unambiguous_oneOrMore (.rule .action) (disjoint_rule hdisjoint).apart

theorem unambiguous_branch : Unambiguous branch := by
  refine .object ?_ fun s hs => by cases hs
  simp only [List.forall_mem_cons]
  exact ⟨unambiguous_reference.optional, unambiguous_actions.optional, List.forall_mem_nil _⟩

theorem unambiguous_texts : Unambiguous (oneOrMore text) :=
  unambiguous_oneOrMore unambiguous_text (disjoint_of_form rfl rfl (by decide)).apart

theorem unambiguous_targets : Unambiguous targets := by
  have hdisjoint : Disjoint (oneOrMore text) .undefined :=
    disjoint_oneOf_of_forms [.string, .array] rfl rfl (by decide)
  refine .oneOf ?_ (List.pairwise_pair.2 hdisjoint.symm.apart)
  simp only [List.forall_mem_cons]
  exact ⟨unambiguous_undefined, unambiguous_texts, List.forall_mem_nil _⟩

/-- Targets are no object. -/
theorem disjoint_targets_object (fields : List (String × Shape)) (others : Option Shape) :
    Disjoint targets (.object fields others) := by
  refine disjoint_oneOf ?_
  simp only [List.forall_mem_cons]
  exact ⟨disjoint_of_form rfl rfl (by decide),
    disjoint_oneOf_of_forms [.string, .array] rfl rfl (by decide), List.forall_mem_nil _⟩

theorem unambiguous_transition : Unambiguous transition := by
  refine .oneOf ?_ (List.pairwise_pair.2 (disjoint_targets_object _ _).apart)
  simp only [List.forall_mem_cons]
  refine ⟨unambiguous_targets, ?_, List.forall_mem_nil _⟩
  refine .object ?_ fun s hs => by cases hs
  simp only [List.forall_mem_cons]
  exact ⟨unambiguous_targets.optional, unambiguous_reference.optional,
    unambiguous_actions.optional, unambiguous_bool.optional, .ignored, .ignored, .ignored,
    List.forall_mem_nil _⟩

/-- An array that is accepted as targets consists of texts. -/
theorem texts_of_read_targets {cx : Context} {n : Nat} {x : Expression} {items : List Expression}
    (hx : cx.scope.resolve x = .array items) (h : read cx n targets (some x) ≠ .failed) :
    ∀ item ∈ items, ∃ t, cx.scope.resolve item = .string t := by
  have hform {s : Shape} (hs : read cx n s (some x) ≠ .failed) {f : Form}
      (hf : s.form? = some f) : f = .array := by
    have hx' := formOf?_of_read hs hf
    rw [hx] at hx'
    exact (Option.some.inj hx').symm
  obtain ⟨s, hs, hread⟩ := exists_alternative_of_ne_failed h
  simp only [List.mem_cons, List.not_mem_nil, or_false] at hs
  rcases hs with rfl | rfl
  · cases hform hread rfl
  · obtain ⟨s, hs, hread⟩ := exists_alternative_of_ne_failed hread
    simp only [List.mem_cons, List.not_mem_nil, or_false] at hs
    rcases hs with rfl | rfl
    · cases hform hread rfl
    · intro item hitem
      obtain ⟨m, x', items', vs, rfl, hxx, hx', hitems, -⟩ := exists_array hread
      obtain rfl := Option.some.inj hxx
      obtain rfl := Expression.array.inj (hx.symm.trans hx')
      have hadmits := admits_of_read ((Reading.collect_eq_some_iff.1 hitems).1 item hitem)
      generalize hy : Option.map cx.scope.resolve (some item) = y at hadmits
      cases hadmits with
      | string _ => exact ⟨_, Option.some.inj hy⟩

/-- Texts are read on any level but none. -/
theorem read_text_of_resolve {cx : Context} {n : Nat} {x : Expression} {t : String}
    (hx : cx.scope.resolve x = .string t) :
    read cx (n + 1) text (some x) = .present (.string t) := by
  refine read_of_readResolved trivial ?_
  rw [hx]
  rfl

/-- Several texts are taken for targets before they are taken for transitions. -/
theorem apart_transition_array : Apart transition (.array transition) := by
  intro cx' n' cx n hlax o hs ht
  refine Classical.byContradiction fun hs' => ?_
  obtain ⟨m, x, items, vs, rfl, rfl, hx, hitems, -⟩ := exists_array ht
  have htexts : ∀ item ∈ items, ∃ t, cx.scope.resolve item = .string t := by
    obtain ⟨s, hmem, hread⟩ := exists_alternative_of_ne_failed hs'
    simp only [List.mem_cons, List.not_mem_nil, or_false] at hmem
    rcases hmem with rfl | rfl
    · intro item hitem
      rw [← hlax.resolve] at hx
      obtain ⟨t, ht⟩ := texts_of_read_targets hx hread item hitem
      exact ⟨t, by rw [← hlax.resolve, ht]⟩
    · have hform := formOf?_of_read hread rfl
      rw [hlax.resolve, hx] at hform
      cases hform
  -- the items are on some level, since they are accepted as transitions, and so as texts
  have hread : ∀ item ∈ items, read cx m text (some item) ≠ .failed := by
    intro item hitem
    obtain ⟨k, rfl⟩ := exists_level ((Reading.collect_eq_some_iff.1 hitems).1 item hitem)
    obtain ⟨t, hitem⟩ := htexts item hitem
    simp [read_text_of_resolve hitem]
  have harray : read cx (m + 1) (.array text) (some x) ≠ .failed := by
    rw [read_array_of_readItems hx (Reading.collect_eq_some_iff.2 ⟨hread, rfl⟩)]
    intro h
    cases h
  refine read_oneOf_ne_failed (s := targets) (by simp) ?_ hs
  refine read_oneOf_ne_failed (s := oneOrMore text) (by simp) ?_
  exact read_oneOf_ne_failed (by simp) harray

theorem unambiguous_transitions : Unambiguous transitions :=
  unambiguous_oneOrMore unambiguous_transition apart_transition_array

theorem unambiguous_transitionMap : Unambiguous transitionMap :=
  unambiguous_record unambiguous_transitions

theorem unambiguous_services : Unambiguous (oneOrMore service) := by
  refine unambiguous_oneOrMore (.object ?_ fun s hs => by cases hs)
    (disjoint_of_form rfl rfl (by decide)).apart
  simp only [List.forall_mem_cons]
  exact ⟨unambiguous_reference, unambiguous_text.optional, unambiguous_transitions.optional,
    unambiguous_transitions.optional, unambiguous_bool.optional, .ignored, List.forall_mem_nil _⟩

/-! ## 3. States -/

theorem unambiguous_commonFields : ∀ field ∈ commonFields, Unambiguous field.2 := by
  unfold commonFields
  simp only [List.forall_mem_cons]
  exact ⟨unambiguous_text.optional, unambiguous_actions.optional, unambiguous_actions.optional,
    unambiguous_transitionMap.optional, unambiguous_transitions.optional,
    unambiguous_transitionMap.optional, unambiguous_transitions.optional,
    unambiguous_services.optional, unambiguous_references.optional, List.forall_mem_nil _⟩

theorem unambiguous_metadata : ∀ field ∈ metadata, Unambiguous field.2 := by
  intro field hf
  obtain ⟨key, -, rfl⟩ := List.mem_map.1 hf
  exact .ignored

/-- The fields of a state are unambiguous if its own are. -/
theorem unambiguous_stateFields {own : List (String × Shape)}
    (h : ∀ field ∈ own, Unambiguous field.2) :
    ∀ field ∈ commonFields ++ own ++ metadata, Unambiguous field.2 := by
  intro field hf
  rcases List.mem_append.1 hf with hf | hf
  · rcases List.mem_append.1 hf with hf | hf
    · exact unambiguous_commonFields field hf
    · exact h field hf
  · exact unambiguous_metadata field hf

/-- A state is unambiguous if its own fields are. -/
theorem unambiguous_stateWith {own : List (String × Shape)}
    (h : ∀ field ∈ own, Unambiguous field.2) : Unambiguous (stateWith own) :=
  .object (unambiguous_stateFields h) fun s hs => by cases hs

theorem unambiguous_noStates : Unambiguous noStates.2 := unambiguous_undefined.optional

theorem unambiguous_states : Unambiguous states := unambiguous_record (.rule .state)

theorem unambiguous_finalState : Unambiguous finalState := by
  refine unambiguous_stateWith ?_
  simp only [List.forall_mem_cons]
  exact ⟨unambiguous_oneOfTexts _, unambiguous_noStates, List.forall_mem_nil _⟩

theorem unambiguous_parallelState : Unambiguous parallelState := by
  refine unambiguous_stateWith ?_
  simp only [List.forall_mem_cons]
  exact ⟨unambiguous_oneOfTexts _, unambiguous_states.optional, List.forall_mem_nil _⟩

theorem unambiguous_historyState : Unambiguous historyState := by
  have hhistory : Unambiguous (.oneOf [oneOfTexts ["shallow", "deep"], .bool]) := by
    refine unambiguous_of_forms ?_ [.string, .bool] rfl (by decide)
    simp only [List.forall_mem_cons]
    exact ⟨unambiguous_oneOfTexts _, unambiguous_bool, List.forall_mem_nil _⟩
  refine unambiguous_stateWith ?_
  simp only [List.forall_mem_cons]
  exact ⟨unambiguous_oneOfTexts _, hhistory.optional, unambiguous_text.optional,
    unambiguous_noStates, List.forall_mem_nil _⟩

theorem unambiguous_compoundState : Unambiguous compoundState := by
  refine unambiguous_stateWith ?_
  simp only [List.forall_mem_cons]
  exact ⟨(unambiguous_oneOfTexts _).optional, unambiguous_text.optional, unambiguous_states,
    List.forall_mem_nil _⟩

theorem unambiguous_atomicState : Unambiguous atomicState := by
  refine unambiguous_stateWith ?_
  simp only [List.forall_mem_cons]
  exact ⟨(unambiguous_oneOfTexts _).optional, unambiguous_noStates, List.forall_mem_nil _⟩

/-- States are apart if there is a field of their own in which they admit nothing in common. -/
theorem apart_stateWith {own own' : List (String × Shape)} {key : String} {a b : Shape}
    (ha : (key, a) ∈ own) (hb : (key, b) ∈ own') (h : Disjoint a b) :
    Apart (stateWith own) (stateWith own') := by
  have hmem {own : List (String × Shape)} {field : String × Shape} (hf : field ∈ own) :
      field ∈ commonFields ++ own ++ metadata := by simp [hf]
  exact apart_of_field (hmem ha) (hmem hb) h

/-- Different types that are asked for are told apart. -/
theorem disjoint_types {type type' : String} (h : type ≠ type') :
    Disjoint (oneOfTexts [type]) (oneOfTexts [type']) := by
  refine disjoint_oneOfTexts fun text ht ht' => h ?_
  rw [← List.mem_singleton.1 ht, ← List.mem_singleton.1 ht']

/-- So are they where the second need not be written. -/
theorem disjoint_types_optional {type type' : String} (h : type ≠ type') :
    Disjoint (oneOfTexts [type]) (.optional (oneOfTexts [type'])) :=
  disjoint_optional (fun hadmits => nomatch hadmits) (disjoint_types h)

theorem disjoint_states_noStates : Disjoint states noStates.2 :=
  disjoint_optional (fun hadmits => nomatch hadmits) (disjoint_of_form rfl rfl (by decide))

/-- **No expression is a state in two ways.** -/
theorem pairwise_apart_states :
    [finalState, parallelState, historyState, compoundState, atomicState].Pairwise Apart := by
  have htype {own : List (String × Shape)} {type : String} :
      ("type", oneOfTexts [type]) ∈ ("type", oneOfTexts [type]) :: own := List.mem_cons_self
  have htype? {own : List (String × Shape)} {type : String} :
      ("type", .optional (oneOfTexts [type])) ∈ ("type", .optional (oneOfTexts [type])) :: own :=
    List.mem_cons_self
  simp only [List.pairwise_cons, List.forall_mem_cons]
  refine ⟨⟨?_, ?_, ?_, ?_, List.forall_mem_nil _⟩, ⟨?_, ?_, ?_, List.forall_mem_nil _⟩,
    ⟨?_, ?_, List.forall_mem_nil _⟩, ⟨?_, List.forall_mem_nil _⟩, List.forall_mem_nil _,
    List.Pairwise.nil⟩
  · exact apart_stateWith htype htype (disjoint_types (by decide))
  · exact apart_stateWith htype htype (disjoint_types (by decide))
  · exact apart_stateWith htype htype? (disjoint_types_optional (by decide))
  · exact apart_stateWith htype htype? (disjoint_types_optional (by decide))
  · exact apart_stateWith htype htype (disjoint_types (by decide))
  · exact apart_stateWith htype htype? (disjoint_types_optional (by decide))
  · exact apart_stateWith htype htype? (disjoint_types_optional (by decide))
  · exact apart_stateWith htype htype? (disjoint_types_optional (by decide))
  · exact apart_stateWith htype htype? (disjoint_types_optional (by decide))
  -- nothing but their children tells a compound state and one without any apart
  · have hstates : ("states", states) ∈ [("type", .optional (oneOfTexts ["compound"])),
        ("initial", .optional text), ("states", states)] := by simp
    have hnoStates : ("states", noStates.2) ∈
        [("type", .optional (oneOfTexts ["atomic"])), noStates] := by simp [noStates]
    exact apart_stateWith hstates hnoStates disjoint_states_noStates

theorem unambiguous_ofRule (r : Rule) : Unambiguous (ofRule r) := by
  cases r with
  | state =>
    refine .oneOf ?_ pairwise_apart_states
    simp only [List.forall_mem_cons]
    exact ⟨unambiguous_finalState, unambiguous_parallelState, unambiguous_historyState,
      unambiguous_compoundState, unambiguous_atomicState, List.forall_mem_nil _⟩
  | action =>
    refine unambiguous_of_forms ?_ [.string, .function, .object, .call] rfl (by decide)
    simp only [List.forall_mem_cons]
    exact ⟨unambiguous_text, unambiguous_function, unambiguous_typed, .creatorCall,
      List.forall_mem_nil _⟩
  | branches => exact unambiguous_branch.array

/-! ## 4. Provided implementations -/

theorem disjoint_number_implementation : Disjoint .number .implementation := by
  intro o hs ht
  cases hs
  cases ht

theorem unambiguous_provided : Unambiguous providedShape := by
  have hdelay : Unambiguous (.oneOf [.number, .implementation]) := by
    refine .oneOf ?_ (List.pairwise_pair.2 disjoint_number_implementation.apart)
    simp only [List.forall_mem_cons]
    exact ⟨.plain (by simp [Plain]), .implementation, List.forall_mem_nil _⟩
  have hrecord := (unambiguous_record .implementation).optional
  refine .object ?_ fun s hs => ?_
  · simp only [List.forall_mem_cons]
    exact ⟨hrecord, hrecord, hrecord, hrecord, (unambiguous_record hdelay).optional,
      List.forall_mem_nil _⟩
  · obtain rfl := Option.some.inj hs
    exact .ignored

/-! ## 5. All levels -/

/-- **Shapes without ambiguity are read alike by all readers that are no stricter.** -/
theorem Unambiguous.stable {s : Shape} (hs : Unambiguous s) (n : Nat) : StableAt n s := by
  induction n, s using level_induction with
  | plain n s h => exact stableAt_plain h
  | ignored n => exact stableAt_ignored
  | creatorCall n ih => exact stableAt_creatorCall fun m hm => ih m hm (.rule .branches)
  | implementation n ih => exact stableAt_implementation fun m hm => ih m hm (.rule .branches)
  | rule n r ih => exact stableAt_rule (ih (unambiguous_ofRule r))
  | array n element ih =>
    cases hs with
    | plain h => exact stableAt_plain h
    | array helement => exact stableAt_array fun m hm => ih m hm helement
  | object n fields others hfields hothers =>
    cases hs with
    | plain h => exact stableAt_plain h
    | object hf ho =>
      exact stableAt_object (fun field hmem m hm => hfields field hmem m hm (hf field hmem))
        fun s hs m hm => hothers s hs m hm (ho s hs)
  | optional n inner ih =>
    cases hs with
    | plain h => exact stableAt_plain h
    | optional hinner => exact stableAt_optional (ih hinner)
  | oneOf n alternatives ih =>
    cases hs with
    | plain h => exact stableAt_plain h
    | oneOf h hapart => exact stableAt_oneOf (fun s hs => ih s hs (h s hs)) hapart

end Statechart.Shape
