import Statechart.Proofs.Value.Fits

/-!
# The misfit of a definition

A value that fits the shape of states describes a state tree unless it says of the states below
some state that they are undefined. Main statement: reading such a value fails just in that case,
and then asks for an object where the undefined states stand.
-/

namespace Statechart

open Shape (Fits)

/-! ## 1. Undefined states -/

/-- **At the path stands an undefined value for the states below some state.** -/
inductive Value.StatesUndefined : Value → List String → Prop
  | here {entries : List (String × Value)} (h : ("states", .undefined) ∈ entries) :
      StatesUndefined (.object entries) ["states"]
  | child {entries cs : List (String × Value)} {key : String} {c : Value} {path : List String}
      (hcs : ("states", .object cs) ∈ entries) (hc : (key, c) ∈ cs) (h : StatesUndefined c path) :
      StatesUndefined (.object entries) ("states" :: key :: path)

namespace Value

variable {v : Value} {path : List String}

theorem StatesUndefined.cons {rest : List (String × Value)}
    (h : StatesUndefined (.object rest) path) (entry : String × Value) :
    StatesUndefined (.object (entry :: rest)) path := by
  cases h with
  | here h => exact .here (List.mem_cons_of_mem entry h)
  | child hcs hc h => exact .child (List.mem_cons_of_mem entry hcs) hc h

/-! ## 2. Entries of states -/

/-- The entry is one that a state may have, of whatever kind the state is. -/
inductive StateEntry : String → Value → Prop
  | common {key : String} {s : Shape} {v : Value} (hs : (key, s) ∈ Shape.commonFields)
      (h : Fits s v) : StateEntry key v
  | kind (k : StateKind) : StateEntry "type" (.string k.word)
  | initial (child : String) : StateEntry "initial" (.string child)
  | history (v : Value) : StateEntry "history" v
  | target (text : String) : StateEntry "target" (.string text)
  | undefinedStates : StateEntry "states" .undefined
  | states {v : Value} (h : Fits Shape.states v) : StateEntry "states" v

theorem kind_of_fits {k : StateKind} (h : Fits (.oneOfTexts [k.word]) v) : StateEntry "type" v := by
  cases h with
  | string h =>
    obtain rfl := List.mem_singleton.1 (h _ rfl)
    exact .kind k

theorem undefinedStates_of_fits (h : Fits (.optional .undefined) v) : StateEntry "states" v := by
  cases Shape.fits_optional.1 h with
  | undefined => exact .undefinedStates

theorem exists_entries_of_stateWith {own : List (String × Shape)} (h : Fits (Shape.stateWith own) v)
    (hown : ∀ key s v, (key, s) ∈ own → Fits s v → StateEntry key v) :
    ∃ entries, v = .object entries ∧ ∀ key v, (key, v) ∈ entries → StateEntry key v := by
  cases h with
  | @object _ _ entries hentries =>
    refine ⟨entries, rfl, fun key v hv => ?_⟩
    obtain ⟨s, hs, h⟩ := Shape.exists_field_of_none (hentries key v hv)
    rcases List.mem_append.1 hs with hs | hs
    · rcases List.mem_append.1 hs with hs | hs
      · exact .common hs h
      · exact hown key s v hs h
    · obtain ⟨name, -, hname⟩ := List.mem_map.1 hs
      obtain ⟨rfl, rfl⟩ := Prod.mk.inj hname
      exact absurd h (Shape.not_fits_ignored v)

/-- **A state is an object of entries that states may have.** -/
theorem exists_entries (h : Fits (.rule .state) v) :
    ∃ entries, v = .object entries ∧ ∀ key v, (key, v) ∈ entries → StateEntry key v := by
  obtain ⟨s, hs, h⟩ := Shape.fits_oneOf.1 (Shape.fits_rule.1 h)
  simp only [List.mem_cons, List.not_mem_nil, or_false] at hs
  rcases hs with rfl | rfl | rfl | rfl | rfl
  · refine exists_entries_of_stateWith h fun key s v hs h => ?_
    simp only [List.mem_cons, List.not_mem_nil, or_false, Prod.mk.injEq] at hs
    rcases hs with ⟨rfl, rfl⟩ | hs
    · exact kind_of_fits (k := .final) h
    · obtain ⟨rfl, rfl⟩ := Prod.mk.inj hs
      exact undefinedStates_of_fits h
  · refine exists_entries_of_stateWith h fun key s v hs h => ?_
    simp only [List.mem_cons, List.not_mem_nil, or_false, Prod.mk.injEq] at hs
    rcases hs with ⟨rfl, rfl⟩ | ⟨rfl, rfl⟩
    · exact kind_of_fits (k := .parallel) h
    · exact .states (Shape.fits_optional.1 h)
  · refine exists_entries_of_stateWith h fun key s v hs h => ?_
    simp only [List.mem_cons, List.not_mem_nil, or_false, Prod.mk.injEq] at hs
    rcases hs with ⟨rfl, rfl⟩ | ⟨rfl, rfl⟩ | ⟨rfl, rfl⟩ | hs
    · exact kind_of_fits (k := .history) h
    · exact .history v
    · obtain ⟨text, rfl⟩ := Shape.exists_string (Shape.fits_optional.1 h)
      exact .target text
    · obtain ⟨rfl, rfl⟩ := Prod.mk.inj hs
      exact undefinedStates_of_fits h
  · refine exists_entries_of_stateWith h fun key s v hs h => ?_
    simp only [List.mem_cons, List.not_mem_nil, or_false, Prod.mk.injEq] at hs
    rcases hs with ⟨rfl, rfl⟩ | ⟨rfl, rfl⟩ | ⟨rfl, rfl⟩
    · exact kind_of_fits (k := .compound) (Shape.fits_optional.1 h)
    · obtain ⟨child, rfl⟩ := Shape.exists_string (Shape.fits_optional.1 h)
      exact .initial child
    · exact .states h
  · refine exists_entries_of_stateWith h fun key s v hs h => ?_
    simp only [List.mem_cons, List.not_mem_nil, or_false, Prod.mk.injEq] at hs
    rcases hs with ⟨rfl, rfl⟩ | hs
    · exact kind_of_fits (k := .atomic) (Shape.fits_optional.1 h)
    · obtain ⟨rfl, rfl⟩ := Prod.mk.inj hs
      exact undefinedStates_of_fits h

/-- The states below are a record of states, or undefined. -/
theorem StateEntry.of_states (h : StateEntry "states" v) : v = .undefined ∨ Fits Shape.states v := by
  generalize hkey : "states" = key at h
  cases h with
  | common hs =>
    subst hkey
    simp [Shape.commonFields] at hs
  | undefinedStates => exact Or.inl rfl
  | states h => exact Or.inr h
  | _ => exact absurd hkey (by decide)

/-- Every other entry is read. -/
theorem readStateEntry_of_stateEntry {key : String} (h : StateEntry key v) (d : StateDecl) :
    ∃ d', readStateEntry d key v = .ok d' := by
  cases h with
  | common hs h =>
    simp only [Shape.commonFields, List.mem_cons, List.not_mem_nil, or_false, Prod.mk.injEq] at hs
    rcases hs with ⟨rfl, rfl⟩ | ⟨rfl, rfl⟩ | ⟨rfl, rfl⟩ | ⟨rfl, rfl⟩ | ⟨rfl, rfl⟩ |
      ⟨rfl, rfl⟩ | ⟨rfl, rfl⟩ | ⟨rfl, rfl⟩ | ⟨rfl, rfl⟩ <;>
      replace h := Shape.fits_optional.1 h
    · exact Outcome.exists_bind (readString_of_fits h) fun _ => ⟨_, rfl⟩
    · exact Outcome.exists_bind (readActions_of_fits h) fun _ => ⟨_, rfl⟩
    · exact Outcome.exists_bind (readActions_of_fits h) fun _ => ⟨_, rfl⟩
    · exact Outcome.exists_bind (readTransitionMap_of_fits h) fun _ => ⟨_, rfl⟩
    · exact Outcome.exists_bind (readTransitions_of_fits h) fun _ => ⟨_, rfl⟩
    · exact Outcome.exists_bind (readTransitionMap_of_fits h) fun _ => ⟨_, rfl⟩
    · exact Outcome.exists_bind (readTransitions_of_fits h) fun _ => ⟨_, rfl⟩
    · have hread := readEach_of_fits readInvoke_of_fits not_fits_service_array h
      exact Outcome.exists_bind hread fun _ => ⟨_, rfl⟩
    · have hread := readEach_of_fits readRef_of_fits not_fits_reference_array h
      exact Outcome.exists_bind hread fun _ => ⟨_, rfl⟩
  | kind k => exact ⟨{ d with kind := some k }, by cases k <;> rfl⟩
  | initial child => exact ⟨_, rfl⟩
  | history v => exact ⟨_, rfl⟩
  | target text => exact ⟨_, rfl⟩
  | undefinedStates => exact ⟨d, rfl⟩
  | states h => exact ⟨d, rfl⟩

/-! ## 3. Where a misfit comes from -/

theorem inside_eq_error {α : Type} {key : String} {r : Read α} {m : Misfit} :
    inside key r = .error m ↔ ∃ m', r = .error m' ∧ m = ⟨key :: m'.path, m'.expected⟩ := by
  cases r with
  | ok a =>
    constructor
    · intro h
      cases h
    · rintro ⟨m', h, -⟩
      cases h
  | error m' =>
    constructor
    · intro h
      exact ⟨m', rfl, (Except.error.inj h).symm⟩
    · rintro ⟨_, h, rfl⟩
      cases h
      rfl

theorem readTreeEntries_cons (t : StateTree) (key : String) (v : Value)
    (rest : List (String × Value)) : readTreeEntries t ((key, v) :: rest) =
      if key = "states" then
        inside key (readChildren v) >>= fun cs => readTreeEntries (.state t.decl cs) rest
      else
        inside key (readStateEntry t.decl key v) >>= fun d =>
          readTreeEntries (.state d t.children) rest := by
  rw [readTreeEntries]
  rfl

mutual

/-- **A misfit in a state comes from undefined states**, and asks for an object in their place. -/
theorem misfit_of_readTree : {v : Value} → Fits (.rule .state) v → {m : Misfit} →
    readTree v = .error m → ∃ path, m = ⟨path, .object⟩ ∧ StatesUndefined v path
  | .object entries, h, m, hm => by
    obtain ⟨entries', he, hentries⟩ := exists_entries h
    obtain rfl := Value.object.inj he
    rcases Outcome.bind_eq_error.1 hm with hm | ⟨t, -, hm⟩
    · exact misfit_of_readTreeEntries .empty hentries hm
    · cases hm
  | .array _, h, _, _ | .undefined, h, _, _ | .bool _, h, _, _ | .number _, h, _, _
  | .string _, h, _, _ | .function, h, _, _ => by
    obtain ⟨entries, he, -⟩ := exists_entries h
    cases he

theorem misfit_of_readTreeEntries : {entries : List (String × Value)} → (t : StateTree) →
    (∀ key v, (key, v) ∈ entries → StateEntry key v) → {m : Misfit} →
    readTreeEntries t entries = .error m →
      ∃ path, m = ⟨path, .object⟩ ∧ StatesUndefined (.object entries) path
  | [], _, _, _, hm => by cases hm
  | (key, v) :: rest, t, hentries, m, hm => by
    have hfirst := hentries key v List.mem_cons_self
    have hrest (t : StateTree) (hm : readTreeEntries t rest = .error m) :
        ∃ path, m = ⟨path, .object⟩ ∧ StatesUndefined (.object ((key, v) :: rest)) path := by
      obtain ⟨path, hpath, h⟩ := misfit_of_readTreeEntries t
        (fun key' v' hv' => hentries key' v' (List.mem_cons_of_mem _ hv')) hm
      exact ⟨path, hpath, h.cons _⟩
    rw [readTreeEntries_cons] at hm
    split at hm
    · next hkey =>
      subst hkey
      rcases Outcome.bind_eq_error.1 hm with hm | ⟨cs, -, hm⟩
      · obtain ⟨m', hm', rfl⟩ := inside_eq_error.1 hm
        rcases hfirst.of_states with rfl | hstates
        · obtain rfl := Except.error.inj hm'
          exact ⟨_, rfl, .here List.mem_cons_self⟩
        · obtain ⟨cs, rfl, key, c, path, hc, rfl, h⟩ := misfit_of_readChildren hstates hm'
          exact ⟨_, rfl, .child List.mem_cons_self hc h⟩
      · exact hrest _ hm
    · obtain ⟨d, hd⟩ := readStateEntry_of_stateEntry hfirst t.decl
      rw [hd, inside_ok] at hm
      exact hrest _ hm

theorem misfit_of_readChildren : {v : Value} → Fits Shape.states v → {m : Misfit} →
    readChildren v = .error m → ∃ cs, v = .object cs ∧
      ∃ key c path, (key, c) ∈ cs ∧ m = ⟨key :: path, .object⟩ ∧ StatesUndefined c path
  | .object cs, h, m, hm => by
    refine ⟨cs, rfl, misfit_of_readChildEntries (fun key c hc => ?_) hm⟩
    cases h with
    | object hentries => exact Shape.fits_of_record (hentries key c hc)
  | .array _, h, _, _ | .undefined, h, _, _ | .bool _, h, _, _ | .number _, h, _, _
  | .string _, h, _, _ | .function, h, _, _ => by cases h

theorem misfit_of_readChildEntries : {cs : List (String × Value)} →
    (∀ key c, (key, c) ∈ cs → Fits (.rule .state) c) → {m : Misfit} →
    readChildEntries cs = .error m →
      ∃ key c path, (key, c) ∈ cs ∧ m = ⟨key :: path, .object⟩ ∧ StatesUndefined c path
  | [], _, _, hm => by cases hm
  | (key, c) :: rest, h, m, hm => by
    rw [readChildEntries] at hm
    rcases Outcome.bind_eq_error.1 hm with hm | ⟨t, -, hm⟩
    · obtain ⟨m', hm', rfl⟩ := inside_eq_error.1 hm
      obtain ⟨path, rfl, hc⟩ := misfit_of_readTree (h key c List.mem_cons_self) hm'
      exact ⟨key, c, path, List.mem_cons_self, rfl, hc⟩
    · rcases Outcome.bind_eq_error.1 hm with hm | ⟨ts, -, hm⟩
      · obtain ⟨key', c', path, hc', rfl, h'⟩ := misfit_of_readChildEntries
          (fun key' c' hc' => h key' c' (List.mem_cons_of_mem _ hc')) hm
        exact ⟨key', c', path, List.mem_cons_of_mem _ hc', rfl, h'⟩
      · cases hm

end

/-! ## 4. What undefined states lead to -/

theorem readChildren_of_readTreeEntries {entries : List (String × Value)} {t t' : StateTree}
    (h : readTreeEntries t entries = .ok t') (hv : ("states", v) ∈ entries) :
    ∃ cs, readChildren v = .ok cs := by
  induction entries generalizing t with
  | nil => cases hv
  | cons entry rest ih =>
    obtain ⟨key, v'⟩ := entry
    rw [readTreeEntries_cons] at h
    rcases List.mem_cons.1 hv with he | hv
    · obtain ⟨rfl, rfl⟩ := Prod.mk.inj he
      rw [if_pos rfl] at h
      obtain ⟨cs, hcs, -⟩ := Outcome.bind_eq_ok.1 h
      exact ⟨cs, inside_eq_ok.1 hcs⟩
    · split at h
      · obtain ⟨cs, -, h⟩ := Outcome.bind_eq_ok.1 h
        exact ih h hv
      · obtain ⟨d, -, h⟩ := Outcome.bind_eq_ok.1 h
        exact ih h hv

theorem readTree_of_readChildEntries {cs : List (String × Value)} {ts : List (String × StateTree)}
    (h : readChildEntries cs = .ok ts) {key : String} {c : Value} (hc : (key, c) ∈ cs) :
    ∃ t, readTree c = .ok t := by
  induction cs generalizing ts with
  | nil => cases hc
  | cons entry rest ih =>
    obtain ⟨key', c'⟩ := entry
    rw [readChildEntries] at h
    obtain ⟨t, ht, h⟩ := Outcome.bind_eq_ok.1 h
    obtain ⟨ts', hts', -⟩ := Outcome.bind_eq_ok.1 h
    rcases List.mem_cons.1 hc with he | hc
    · obtain ⟨rfl, rfl⟩ := Prod.mk.inj he
      exact ⟨t, inside_eq_ok.1 ht⟩
    · exact ih hts' hc

/-- **Undefined states are always a misfit.** -/
theorem StatesUndefined.readTree_ne_ok (h : StatesUndefined v path) (t : StateTree) :
    readTree v ≠ .ok t := by
  intro ht
  induction h generalizing t with
  | here hmem =>
    obtain ⟨t', ht', -⟩ := Outcome.bind_eq_ok.1 ht
    obtain ⟨cs, hcs⟩ := readChildren_of_readTreeEntries ht' hmem
    cases hcs
  | child hcs hc _ ih =>
    obtain ⟨t', ht', -⟩ := Outcome.bind_eq_ok.1 ht
    obtain ⟨ts, hts⟩ := readChildren_of_readTreeEntries ht' hcs
    obtain ⟨t'', ht''⟩ := readTree_of_readChildEntries hts hc
    exact ih t'' ht''

/-- **A value of the shape of states fails to be read just where it has undefined states.** -/
theorem exists_misfit_iff (h : Fits (.rule .state) v) :
    (∃ m, readTree v = .error m) ↔ ∃ path, StatesUndefined v path := by
  constructor
  · rintro ⟨m, hm⟩
    obtain ⟨path, -, hpath⟩ := misfit_of_readTree h hm
    exact ⟨path, hpath⟩
  · rintro ⟨path, hpath⟩
    cases hread : readTree v with
    | ok t => exact absurd hread (hpath.readTree_ne_ok t)
    | error m => exact ⟨m, rfl⟩

end Value

end Statechart
