import Statechart.Proofs.Entries
import Statechart.Proofs.Shape.Objects
import Statechart.Proofs.Shape.Unambiguous

/-!
# What is kept of a definition

A definition that is accepted is an object that is written out, and so are the objects of the states
below, of the events and of the delays. Main statement: no state, no event and no delay is lost, on
any level.
-/

namespace Statechart

/-! ## 1. States, events and delays -/

/-- The expression ends in an object of these entries, of which every key is written out. -/
structure Scope.WrittenOut (scope : Scope) (x : Expression) (entries : List Entry) : Prop where
  resolve : scope.resolve x = .object entries
  written : Entry.AllWritten entries

/-- The key is in neither object, or in both of them: then the object that is written last under it
is written out, and its keys are kept in the order in which they first come. -/
def Scope.KeepsKeys (scope : Scope) (entries : List Entry) (vs : Assoc Value) (key : String) :
    Prop :=
  (Entry.last? entries key = none ∧ vs.lookup key = none) ∨
    ∃ x inner ws, Entry.last? entries key = some x ∧ scope.WrittenOut x inner ∧
      vs.lookup key = some (.object ws) ∧ Assoc.keys ws = Entry.keys inner

/-- **The value has the states, the events and the delays of the expression, on all levels.** -/
inductive Context.Keeps (cx : Context) : Expression → Value → Prop
  /-- There is no object of states below on either side. -/
  | leaf {e : Expression} {entries : List Entry} {vs : List (String × Value)}
      (he : cx.scope.WrittenOut e entries)
      (hexpression : ∀ x inner, Entry.last? entries "states" = some x →
        cx.scope.resolve x ≠ .object inner)
      (hvalue : ∀ children, vs.lookup "states" ≠ some (.object children))
      (hon : cx.scope.KeepsKeys entries vs "on")
      (hafter : cx.scope.KeepsKeys entries vs "after") : Keeps cx e (.object vs)
  /-- The object that is written last for the states below is written out. Its keys are kept in the
  order in which they first come, and under each stands what the expression that is written last
  under it is read to. -/
  | parent {e x : Expression} {entries inner : List Entry} {vs children : List (String × Value)}
      (he : cx.scope.WrittenOut e entries)
      (hexpression : Entry.last? entries "states" = some x) (hx : cx.scope.WrittenOut x inner)
      (hvalue : vs.lookup "states" = some (.object children))
      (hkeys : Assoc.keys children = Entry.keys inner)
      (hread : ∀ key y, Entry.last? inner key = some y →
        ∃ v, children.lookup key = some v ∧ Shape.readDefinition cx y = .present v)
      (hbelow : ∀ key y v, Entry.last? inner key = some y → children.lookup key = some v →
        Keeps cx y v)
      (hon : cx.scope.KeepsKeys entries vs "on")
      (hafter : cx.scope.KeepsKeys entries vs "after") : Keeps cx e (.object vs)

namespace Shape

variable {cx : Context} {m n : Nat} {o : Option Expression} {x : Expression} {v : Value}

/-! ## 2. One state -/

theorem not_omissible_state : ¬ Omissible (.rule .state) := by
  intro h
  cases h with
  | rule h =>
    cases h with
    | oneOf hs h =>
      simp only [List.mem_cons, List.not_mem_nil, or_false] at hs
      rcases hs with rfl | rfl | rfl | rfl | rfl <;> cases h

theorem not_omissible_oneOrMore {s : Shape} (hs : ¬ Omissible s) : ¬ Omissible (oneOrMore s) := by
  intro h
  cases h with
  | oneOf hmem h =>
    simp only [List.mem_cons, List.not_mem_nil, or_false] at hmem
    rcases hmem with rfl | rfl
    · exact hs h
    · cases h

theorem not_omissible_targets : ¬ Omissible targets := by
  intro h
  cases h with
  | oneOf hmem h =>
    simp only [List.mem_cons, List.not_mem_nil, or_false] at hmem
    rcases hmem with rfl | rfl
    · cases h
    · exact not_omissible_oneOrMore (fun h => by cases h) h

theorem not_omissible_transitions : ¬ Omissible transitions := by
  refine not_omissible_oneOrMore fun h => ?_
  cases h with
  | oneOf hmem h =>
    simp only [List.mem_cons, List.not_mem_nil, or_false] at hmem
    rcases hmem with rfl | rfl
    · exact not_omissible_targets h
    · cases h

/-- Every kind of state has distinct fields, and asks for no states below it or for some. -/
theorem exists_own {s : Shape}
    (hs : s ∈ [finalState, parallelState, historyState, compoundState, atomicState]) :
    ∃ own, s = stateWith own ∧ Assoc.Distinct (commonFields ++ own ++ metadata) ∧
      (noStates ∈ own ∨ ("states", .optional states) ∈ own ∨ ("states", states) ∈ own) := by
  simp only [List.mem_cons, List.not_mem_nil, or_false] at hs
  rcases hs with rfl | rfl | rfl | rfl | rfl
  · exact ⟨_, rfl, by decide, .inl (by simp)⟩
  · exact ⟨_, rfl, by decide, .inr (.inl (by simp))⟩
  · exact ⟨_, rfl, by decide, .inl (by simp)⟩
  · exact ⟨_, rfl, by decide, .inr (.inr (by simp))⟩
  · exact ⟨_, rfl, by decide, .inl (by simp)⟩

/-- **An accepted state** has the values of the fields that all states have, and there are states
below it or there may be none. -/
theorem exists_state (h : read cx n (.rule .state) o ≠ .failed) :
    ∃ m x entries w vs, n = m + 1 ∧ o = some x ∧ cx.scope.resolve x = .object entries ∧
      Entry.keyed? entries = some w ∧ read cx n (.rule .state) o = .present (.object vs) ∧
      (∀ field ∈ commonFields,
        read cx m field.2 (w.lookup field.1) = .ofField (vs.lookup field.1)) ∧
      (read cx m noStates.2 (w.lookup "states") = .ofField (vs.lookup "states") ∨
        read cx m (.optional states) (w.lookup "states") = .ofField (vs.lookup "states")) := by
  rw [read_rule_eq] at h ⊢
  obtain ⟨s, hs, hread⟩ := exists_alternative h
  have hne : read cx n s o ≠ .failed := by
    rw [hread]
    exact h
  obtain ⟨own, rfl, hd, hstates⟩ := exists_own hs
  obtain ⟨m, x, entries, w, vs, rfl, rfl, hx, hw, hpresent, hfields⟩ := exists_fields hd hne
  refine ⟨m, x, entries, w, vs, rfl, rfl, hx, hw, ?_, fun field hf => hfields field ?_, ?_⟩
  · rw [← hpresent]
    exact hread.symm
  · simp [hf]
  · rcases hstates with hstates | hstates | hstates
    · exact .inl (hfields noStates (by simp [hstates]))
    · exact .inr (hfields ("states", .optional states) (by simp [hstates]))
    · -- states that must not be left out are there
      have hread := hfields ("states", states) (by simp [hstates])
      cases hl : w.lookup "states" with
      | none =>
        rw [hl] at hread
        cases m with
        | zero => exact absurd rfl (Reading.ne_failed_of_eq_ofField hread)
        | succ m => exact absurd rfl (Reading.ne_failed_of_eq_ofField hread)
      | some y =>
        rw [hl] at hread
        rw [read_optional_some]
        exact .inr hread

/-- Reading goes no deeper than it must: what is accepted on some level is accepted as a whole. -/
theorem readDefinition_of_read (hn : n ≤ maxNesting + 1)
    (h : read cx n (.rule .state) (some x) = .present v) : readDefinition cx x = .present v := by
  have hlax : NoStricter cx (maxNesting + 1) cx n := ⟨rfl, fun _ => rfl, id, hn⟩
  have hread := (Unambiguous.rule .state).stable n cx (maxNesting + 1) cx hlax (some x)
  exact (hread (by simp [h])).trans h

/-! ## 3. All states -/

/-- An accepted record is written out, keeps its keys and has what is written last under each. -/
theorem exists_written_record {s : Shape} (hs : ¬ Omissible s) {v : Option Value}
    (h : read cx n (.record s) (some x) = .ofField v) :
    ∃ m inner ws, n = m + 1 ∧ cx.scope.WrittenOut x inner ∧ v = some (.object ws) ∧
      Assoc.keys ws = Entry.keys inner ∧ ∀ key y, Entry.last? inner key = some y →
        ∃ u, ws.lookup key = some u ∧ read cx m s (some y) = .present u := by
  obtain ⟨m, _, inner, w, ws, rfl, hxx, hx, hw, hpresent, hkeys, hlookup⟩ :=
    exists_record hs (Reading.ne_failed_of_eq_ofField h)
  obtain rfl := Option.some.inj hxx
  obtain ⟨hwritten, hkeys', hlast⟩ := Entry.keys_of_keyed? hw
  refine ⟨m, inner, ws, rfl, ⟨hx, hwritten⟩, ?_, hkeys.trans hkeys', fun key y hy => ?_⟩
  · rw [hpresent] at h
    cases v with
    | none => cases h
    | some v => rw [Reading.present.inj h]
  · exact hlookup key y (by rw [hlast, hy])

/-- The keys of an accepted record that may be left out are kept. -/
theorem keepsKeys_of_read {s : Shape} (hs : ¬ Omissible s) {entries : List Entry}
    {w : Assoc Expression} (hw : Entry.keyed? entries = some w) {vs : Assoc Value} {key : String}
    (h : read cx m (.optional (.record s)) (w.lookup key) = .ofField (vs.lookup key)) :
    cx.scope.KeepsKeys entries vs key := by
  obtain ⟨-, -, hlast⟩ := Entry.keys_of_keyed? hw
  rcases exists_of_read_optional h with ⟨ho, hv⟩ | ⟨x, ho, hread⟩
  · exact .inl ⟨by rw [← hlast, ho], hv⟩
  · obtain ⟨-, inner, ws, -, hx, hv, hkeys, -⟩ := exists_written_record hs hread
    exact .inr ⟨x, inner, ws, by rw [← hlast, ho], hx, hv, hkeys⟩

/-- Nothing that is undefined is an object, be it an expression or a value. -/
theorem not_object_of_read {v : Option Value} (h : read cx m noStates.2 o = .ofField v) :
    (∀ x inner, o = some x → cx.scope.resolve x ≠ .object inner) ∧
      ∀ children, v ≠ some (.object children) := by
  rcases exists_of_read_optional h with ⟨rfl, rfl⟩ | ⟨x, rfl, hread⟩
  · exact ⟨fun x inner hx => (by cases hx), fun children hv => (by cases hv)⟩
  · refine ⟨fun x' inner hxx hx => ?_, fun children hv => ?_⟩
    · obtain rfl := Option.some.inj hxx
      have hform := formOf?_of_read (Reading.ne_failed_of_eq_ofField hread) rfl
      rw [hx] at hform
      cases hform
    · rw [hv] at hread
      cases fits_of_read hread

/-- **Within any number of levels** an accepted state keeps what it has. -/
theorem keeps_of_read (hn : n ≤ maxNesting + 1)
    (h : read cx n (.rule .state) (some x) = .present v) : cx.Keeps x v := by
  -- the states below are read on lower levels
  induction n using Nat.strongRecOn generalizing x v with
  | _ n ih =>
    obtain ⟨m, _, entries, w, vs, rfl, hxx, hx, hw, hpresent, hcommon, hstates⟩ :=
      exists_state (by simp [h] : read cx n (.rule .state) (some x) ≠ .failed)
    obtain rfl := Option.some.inj hxx
    obtain rfl := Reading.present.inj (h.symm.trans hpresent)
    obtain ⟨hwritten, -, hlast⟩ := Entry.keys_of_keyed? hw
    have hon : cx.scope.KeepsKeys entries vs "on" :=
      keepsKeys_of_read not_omissible_transitions hw
        (hcommon ("on", .optional transitionMap) (by simp [commonFields]))
    have hafter : cx.scope.KeepsKeys entries vs "after" :=
      keepsKeys_of_read not_omissible_transitions hw
        (hcommon ("after", .optional transitionMap) (by simp [commonFields]))
    have hleaf (hexpression : ∀ y inner, w.lookup "states" = some y →
          cx.scope.resolve y ≠ .object inner)
        (hvalue : ∀ children, vs.lookup "states" ≠ some (.object children)) :
        cx.Keeps x (.object vs) := by
      refine .leaf ⟨hx, hwritten⟩ (fun y inner hy => hexpression y inner ?_) hvalue hon hafter
      rw [hlast, hy]
    rcases hstates with hstates | hstates
    · obtain ⟨hexpression, hvalue⟩ := not_object_of_read hstates
      exact hleaf hexpression hvalue
    · rcases exists_of_read_optional hstates with ⟨hnone, hvalue⟩ | ⟨y, hy, hread⟩
      · refine hleaf (fun y inner hy => ?_) (fun children hchildren => ?_)
        · rw [hnone] at hy
          cases hy
        · rw [hvalue] at hchildren
          cases hchildren
      · obtain ⟨k, inner, children, rfl, hy', hvalue, hkeys, hbelow⟩ :=
          exists_written_record not_omissible_state hread
        have hk : k < k + 1 + 1 := by omega
        have hlevels : k ≤ maxNesting + 1 := by omega
        refine .parent ⟨hx, hwritten⟩ (by rw [← hlast, hy]) hy' hvalue hkeys
          (fun key z hz => ?_) (fun key z u hz hu => ?_) hon hafter
        · obtain ⟨u, hu, hread⟩ := hbelow key z hz
          exact ⟨u, hu, readDefinition_of_read hlevels hread⟩
        · obtain ⟨u', hu', hread⟩ := hbelow key z hz
          obtain rfl := Option.some.inj (hu.symm.trans hu')
          exact ih k hk hlevels hread

end Shape

/-- **No state, event or delay is lost.** A definition that is accepted is written out, and its
value has the states below it, its events and its delays under the same keys, in the order in which
these first come, with what was last written for each; and so has every state below. -/
theorem keeps_of_readDefinition (cx : Context) (e : Expression) (v : Value)
    (h : Shape.readDefinition cx e = .present v) : cx.Keeps e v :=
  Shape.keeps_of_read (Nat.le_refl _) h

/-- Where a key is written twice it keeps its first place and its last value, also for states that
are written under a name, and for events below them. -/
theorem states_under_name_kept :
    let switched := Expression.object [.keyed "on" (.object
      [.keyed "GO" .undefined, .keyed "BACK" (.string "b"), .keyed "GO" (.string "b")])]
    let below := Expression.object [.keyed "a" (.string "x"), .keyed "b" (.object []),
      .keyed "a" switched]
    let cx : Context := ⟨[("below", .value below)], {}⟩
    let e := Expression.object [.keyed "states" .null, .keyed "states" (.name "below")]
    let v := Value.object [("states", .object [
      ("a", .object [("on", .object [("GO", .string "b"), ("BACK", .string "b")])]),
      ("b", .object [])])]
    Shape.readDefinition cx e = .present v ∧ cx.Keeps e v := by
  intro switched below cx e v
  have hread : Shape.readDefinition cx e = .present v := by rfl
  exact ⟨hread, keeps_of_readDefinition cx e v hread⟩

end Statechart
