import Statechart.Analysis
import Statechart.Proofs.Endless
import Statechart.Proofs.Extraction
import Statechart.Proofs.Graph.Delays
import Statechart.Proofs.Leaves
import Statechart.Proofs.Value.OwnFields

/-!
# Delays of a file

Which delays the machines of a file wait for where the keys of the delays are written as numeric
literals. Main statement: the transitions under such a key wait for its number, and the key is not
listed as a name, just where the literal is a run of digits for a number that fits 64 bits; under
any other literal they wait for a delay of that name.
-/

namespace Statechart

/-! ## 1. Keys of what is read -/

/-- Under a key that is written out something is written last. -/
theorem Entry.exists_last? {entries : List Entry} {key : String} {y : Expression}
    (h : .keyed key y ∈ entries) : ∃ z, last? entries key = some z := by
  have hpair : (key, y) ∈ (entries.filterMap pair?).reverse :=
    List.mem_reverse.2 (List.mem_filterMap.2 ⟨_, h, rfl⟩)
  exact Assoc.exists_lookup_of_mem hpair

namespace Shape

variable {cx : Context} {n : Nat} {o : Option Expression} {vs : List (String × Value)}

/-- The fields that are read have distinct keys. -/
theorem distinct_of_readFields {below : Reader} {w : Assoc Expression}
    {fields : List (String × Shape)} {known : Assoc Value} (hd : Assoc.Distinct fields)
    (h : readFields below w fields = some known) : Assoc.Distinct known := by
  obtain ⟨-, rfl⟩ := Reading.collect_eq_some_iff.1 h
  have hkeys : Assoc.Distinct (fields.map fun field =>
      (field.1, (below field.2 (w.lookup field.1)).value?)) := by
    unfold Assoc.Distinct Assoc.keys
    rw [List.map_map]
    exact hd
  have hpresent := hkeys.present
  unfold Assoc.present at hpresent
  rw [List.filterMap_map] at hpresent
  exact hpresent

/-- **A state that is read has each of its keys once.** -/
theorem distinct_of_read_state (h : read cx n (.rule .state) o = .present (.object vs)) :
    Assoc.Distinct vs := by
  rw [read_rule_eq] at h
  have hne : read cx n (ofRule .state) o ≠ .failed := by simp [h]
  obtain ⟨s, hs, hread⟩ := exists_alternative hne
  obtain ⟨own, rfl, hd, -⟩ := exists_own hs
  have hobject : read cx n (stateWith own) o = .present (.object vs) := hread.trans h
  obtain ⟨m, x, entries, v, rfl, rfl, -, hv, hpresent⟩ :=
    exists_object (by simp [hobject] : read cx n (stateWith own) o ≠ .failed)
  obtain ⟨w, -, known, hknown, rest, hrest, rfl⟩ := readObject_eq_some_iff.1 hv
  obtain rfl := readOthers_none hrest
  obtain rfl := Value.object.inj (Reading.present.inj (hobject.symm.trans hpresent))
  rw [List.append_nil]
  exact distinct_of_readFields hd hknown

end Shape

namespace Value

/-! ## 2. What is read under a key -/

section Fields

variable {β γ : Type} {g : β → String → Value → Read β} {f : β → γ} {key : String} {b b' : β}
  {entries : List (String × Value)}

/-- Entries with other keys leave a field as it is. -/
theorem field_of_foldlM
    (hkeep : ∀ {b key' v b'}, key' ≠ key → g b key' v = .ok b' → f b' = f b)
    (hkey : key ∉ Assoc.keys entries)
    (h : entries.foldlM (fun b entry => inside entry.1 (g b entry.1 entry.2)) b = .ok b') :
    f b' = f b := by
  induction entries generalizing b with
  | nil => rw [Except.ok.inj h]
  | cons entry rest ih =>
    obtain ⟨hne, hrest⟩ := List.ne_and_not_mem_of_not_mem_cons hkey
    obtain ⟨b₁, hb₁, h⟩ := Outcome.bind_eq_ok.1 h
    rw [ih hrest h]
    exact hkeep hne.symm (inside_eq_ok.1 hb₁)

/-- **What a field is filled with stays there**, whatever is read after it. -/
theorem exists_step_of_foldlM
    (hkeep : ∀ {b key' v b'}, key' ≠ key → g b key' v = .ok b' → f b' = f b)
    (hd : Assoc.Distinct entries) {v : Value} (hv : entries.lookup key = some v)
    (h : entries.foldlM (fun b entry => inside entry.1 (g b entry.1 entry.2)) b = .ok b') :
    ∃ b₀ b₁, g b₀ key v = .ok b₁ ∧ f b' = f b₁ := by
  obtain ⟨before, rest, rfl, -⟩ := Assoc.lookup_eq_some_iff.1 hv
  have hrest : key ∉ Assoc.keys rest := by
    unfold Assoc.Distinct Assoc.keys at hd
    rw [List.map_append, List.nodup_append] at hd
    exact (List.nodup_cons.1 hd.2.1).1
  rw [List.foldlM_append] at h
  obtain ⟨b₀, -, h⟩ := Outcome.bind_eq_ok.1 h
  obtain ⟨b₁, hb₁, h⟩ := Outcome.bind_eq_ok.1 h
  exact ⟨b₀, b₁, inside_eq_ok.1 hb₁, field_of_foldlM (g := g) hkeep hrest h⟩

end Fields

variable {t t' : StateTree} {entries : List (String × Value)} {key : String} {v : Value}

/-- **The states below a state are those under its key for them.** -/
theorem readChildren_of_lookup (hd : Assoc.Distinct entries)
    (hv : entries.lookup "states" = some v) (ht : readTree (.object entries) = .ok t) :
    readChildren v = .ok t.children := by
  obtain ⟨t₁, ht₁, ht⟩ := Outcome.bind_eq_ok.1 ht
  obtain rfl := Except.ok.inj ht
  rw [readTreeEntries_eq] at ht₁
  have hkeep {b : StateTree} {key' : String} {v' : Value} {b' : StateTree} (hne : key' ≠ "states")
      (h : readTreeEntry b key' v' = .ok b') : b'.children = b.children := by
    rw [readTreeEntry, if_neg hne] at h
    obtain ⟨d, -, rfl⟩ := Outcome.map_eq_ok.1 h
    rfl
  obtain ⟨t₂, t₃, hread, hchildren⟩ := exists_step_of_foldlM (g := readTreeEntry) hkeep hd hv ht₁
  obtain ⟨cs, hcs, rfl⟩ := Outcome.map_eq_ok.1 hread
  rw [StateTree.children_state, hchildren]
  exact hcs

/-- The declared delays do not depend on other entries. -/
theorem after_withField {key : String} (hkey : key ≠ "after") (c d : StateDecl) :
    (StateDecl.withField key c d).after = d.after := by
  unfold StateDecl.withField
  split <;> first
    | rfl
    | exact absurd rfl hkey

/-- **The delays of a state are those under its key for them.** -/
theorem readTransitionMap_of_lookup (hd : Assoc.Distinct entries)
    (hv : entries.lookup "after" = some v) (ht : readTree (.object entries) = .ok t) :
    readTransitionMap v = .ok t.decl.after := by
  obtain ⟨t₁, ht₁, ht⟩ := Outcome.bind_eq_ok.1 ht
  obtain rfl := Except.ok.inj ht
  rw [readTreeEntries_eq] at ht₁
  have hkeep {b : StateTree} {key' : String} {v' : Value} {b' : StateTree} (hne : key' ≠ "after")
      (h : readTreeEntry b key' v' = .ok b') : b'.decl.after = b.decl.after := by
    rw [readTreeEntry] at h
    split at h
    · obtain ⟨cs, -, rfl⟩ := Outcome.map_eq_ok.1 h
      rfl
    · obtain ⟨d, hd, rfl⟩ := Outcome.map_eq_ok.1 h
      rw [readStateEntry_eq] at hd
      obtain ⟨c, -, rfl⟩ := Outcome.map_eq_ok.1 hd
      exact after_withField hne c b.decl
  obtain ⟨t₂, t₃, hread, hafter⟩ :=
    exists_step_of_foldlM (g := readTreeEntry) (f := fun t : StateTree => t.decl.after) hkeep hd hv
      ht₁
  have hdecl : (withDefaultDepth t₁.decl).after = t₁.decl.after := by
    unfold withDefaultDepth
    split <;> rfl
  obtain ⟨d, hd, rfl⟩ := Outcome.map_eq_ok.1 hread
  obtain ⟨after, hmap, hd⟩ := Outcome.bind_eq_ok.1 hd
  obtain rfl := Except.ok.inj hd
  rw [StateTree.decl_state, hdecl, hafter]
  exact hmap

/-- What stands under a key of a record is read to what is found under that key. -/
theorem exists_lookup_of_mapM {α : Type} {f : Value → Read α} {as : Assoc α}
    (h : entries.mapM (fun entry => (inside entry.1 (f entry.2)).map (entry.1, ·)) = .ok as)
    (hv : entries.lookup key = some v) : ∃ a, f v = .ok a ∧ as.lookup key = some a := by
  induction entries generalizing as with
  | nil => cases hv
  | cons entry rest ih =>
    obtain ⟨key', v'⟩ := entry
    rw [List.mapM_cons] at h
    obtain ⟨p, hp, h⟩ := Outcome.bind_eq_ok.1 h
    obtain ⟨as', has', h⟩ := Outcome.bind_eq_ok.1 h
    obtain rfl := Except.ok.inj h
    obtain ⟨a, ha, rfl⟩ := Outcome.map_eq_ok.1 hp
    rw [List.lookup_cons] at hv ⊢
    cases hkey : key == key' with
    | true =>
      rw [hkey] at hv
      obtain rfl := Option.some.inj hv
      exact ⟨a, inside_eq_ok.1 ha, rfl⟩
    | false =>
      rw [hkey] at hv
      exact ih has' hv

/-- **The state below under a key** is read from what stands there. -/
theorem exists_child (hd : Assoc.Distinct entries) {children : List (String × Value)}
    (hchildren : entries.lookup "states" = some (.object children))
    (hv : children.lookup key = some v) (ht : readTree (.object entries) = .ok t) :
    ∃ c, readTree v = .ok c ∧ t.children.lookup key = some c := by
  have hread : readChildEntries children = .ok t.children :=
    readChildren_of_lookup hd hchildren ht
  rw [readChildEntries_eq] at hread
  exact exists_lookup_of_mapM hread hv

/-- **The transitions under a delay** are read from what stands there. -/
theorem exists_delayed (hd : Assoc.Distinct entries) {delays : List (String × Value)}
    (hdelays : entries.lookup "after" = some (.object delays))
    (hv : delays.lookup key = some v) (ht : readTree (.object entries) = .ok t) :
    ∃ declared, readTransitions v = .ok declared ∧ t.decl.after.lookup key = some declared := by
  have hread : readTransitionMap (.object delays) = .ok t.decl.after :=
    readTransitionMap_of_lookup hd hdelays ht
  have hmap : readTransitionMap (.object delays) =
      delays.mapM fun entry => (inside entry.1 (readTransitions entry.2)).map (entry.1, ·) := rfl
  rw [hmap] at hread
  exact exists_lookup_of_mapM hread hv

end Value

/-! ## 3. States on the way -/

/-- **The second expression is the state at the path below the first**: each key of the path is
followed to what is written last under it. -/
inductive Scope.StateAt (scope : Scope) : List String → Expression → Expression → Prop
  | here (e : Expression) : StateAt scope [] e e
  | child {key : String} {path : List String} {e x c s : Expression}
      (hx : scope.last? e "states" = some x) (hc : scope.last? x key = some c)
      (rest : StateAt scope path c s) : StateAt scope (key :: path) e s

namespace Shape

variable {cx : Context} {n : Nat} {e s x : Expression} {v : Value} {t : StateTree}
  {path : List String} {key : String}

/-- **One state:** the state below under a key is read to the one that is found under it. -/
theorem exists_read_below (hx : cx.scope.last? e "states" = some x)
    (hs : cx.scope.last? x key = some s) (h : read cx n (.rule .state) (some e) = .present v)
    (ht : v.readTree = .ok t) :
    ∃ m u c, read cx m (.rule .state) (some s) = .present u ∧ u.readTree = .ok c ∧
      t.children.lookup key = some c := by
  obtain ⟨entries, he, hlast⟩ := Scope.exists_of_last? hx
  obtain ⟨inner, hinner, hkey⟩ := Scope.exists_of_last? hs
  obtain ⟨m, _, entries', w, vs, rfl, hee, he', hw, hpresent, -, hstates⟩ :=
    exists_state (by simp [h] : read cx n (.rule .state) (some e) ≠ .failed)
  obtain rfl := Option.some.inj hee
  obtain rfl := Expression.object.inj (he.symm.trans he')
  obtain rfl := Reading.present.inj (h.symm.trans hpresent)
  have hlookup : w.lookup "states" = some x := ((Entry.keys_of_keyed? hw).2.2 "states").trans hlast
  rw [hlookup] at hstates
  rcases hstates with hstates | hstates
  · exact absurd hinner ((not_object_of_read hstates).1 x inner rfl)
  · rw [read_optional_some] at hstates
    obtain ⟨k, inner', ws, rfl, hwritten, hvs, -, hbelow⟩ :=
      exists_written_record not_omissible_state hstates
    obtain rfl := Expression.object.inj (hinner.symm.trans hwritten.resolve)
    obtain ⟨u, hu, hread⟩ := hbelow key s hkey
    obtain ⟨c, hc, hlookup⟩ := Value.exists_child (distinct_of_read_state h) hvs hu ht
    exact ⟨k, u, c, hread, hc, hlookup⟩

/-- **All states:** the state at a path is read to the one that is found there. -/
theorem exists_read_at (hs : cx.scope.StateAt path e s)
    (h : read cx n (.rule .state) (some e) = .present v) (ht : v.readTree = .ok t) :
    ∃ m u c, read cx m (.rule .state) (some s) = .present u ∧ u.readTree = .ok c ∧
      t.at? path = some c := by
  induction hs generalizing n v t with
  | here e => exact ⟨n, v, t, h, ht, rfl⟩
  | child hx hc _ ih =>
    obtain ⟨m, u, c, hu, hc, hlookup⟩ := exists_read_below hx hc h ht
    obtain ⟨k, w, d, hw, hd, hat⟩ := ih hu hc
    refine ⟨k, w, d, hw, hd, ?_⟩
    show (t.children.lookup _).bind _ = some d
    rw [hlookup, Option.bind_some]
    exact hat

/-- **The transitions under a delay** that is written in a state are found under its key. -/
theorem exists_read_delayed (hx : cx.scope.last? s "after" = some x) {inner : List Entry}
    (hinner : cx.scope.resolve x = .object inner) {y : Expression} (hy : .keyed key y ∈ inner)
    (h : read cx n (.rule .state) (some s) = .present v) (ht : v.readTree = .ok t) :
    ∃ declared, t.decl.after.lookup key = some declared := by
  obtain ⟨entries, hs, hlast⟩ := Scope.exists_of_last? hx
  obtain ⟨m, _, entries', w, vs, rfl, hss, hs', hw, hpresent, hcommon, -⟩ :=
    exists_state (by simp [h] : read cx n (.rule .state) (some s) ≠ .failed)
  obtain rfl := Option.some.inj hss
  obtain rfl := Expression.object.inj (hs.symm.trans hs')
  obtain rfl := Reading.present.inj (h.symm.trans hpresent)
  have hlookup : w.lookup "after" = some x := ((Entry.keys_of_keyed? hw).2.2 "after").trans hlast
  have hread := hcommon ("after", .optional transitionMap) (by simp [commonFields])
  rw [hlookup, read_optional_some] at hread
  obtain ⟨k, inner', ws, rfl, hwritten, hvs, -, hbelow⟩ :=
    exists_written_record not_omissible_transitions hread
  obtain rfl := Expression.object.inj (hinner.symm.trans hwritten.resolve)
  obtain ⟨z, hz⟩ := Entry.exists_last? hy
  obtain ⟨u, hu, -⟩ := hbelow key z hz
  obtain ⟨declared, -, hdeclared⟩ := Value.exists_delayed (distinct_of_read_state h) hvs hu ht
  exact ⟨declared, hdeclared⟩

end Shape

/-! ## 4. Files -/

/-- **In the state at the path a delay is written with a number as its key**, of this text. -/
def Scope.DelayAt (scope : Scope) (e : Expression) (path : List String) (key : String) : Prop :=
  ∃ s x parts line v, scope.StateAt path e s ∧ scope.last? s "after" = some x ∧
    scope.resolve x = Source.Tree.expression (.node .object parts) ∧
    .node .pair [.leaf .number key line, v] ∈ parts

theorem Source.Tree.mem_entries {t : Tree} {parts : List Tree} (h : t ∈ parts) :
    entry t ∈ entries parts := by
  induction parts with
  | nil => cases h
  | cons part rest ih =>
    rw [entries]
    rcases List.mem_cons.1 h with rfl | h
    · exact List.mem_cons_self
    · exact List.mem_cons_of_mem _ (ih h)

/-- A delay that is written is declared in the tree. -/
theorem Scope.DelayAt.exists_declared {cx : Context} {e : Expression} {path : List String}
    {key : String} (h : cx.scope.DelayAt e path key) {v : Value} {t : StateTree}
    (hv : Shape.readDefinition cx e = .present v) (ht : v.readTree = .ok t) :
    ∃ s declared, t.at? path = some s ∧ s.decl.after.lookup key = some declared := by
  obtain ⟨s, x, parts, line, value, hs, hx, hparts, hpair⟩ := h
  obtain ⟨m, u, c, hu, hc, hat⟩ := Shape.exists_read_at hs hv ht
  have hentry : .keyed key value.expression ∈ Source.Tree.entries parts :=
    Source.Tree.mem_entries hpair
  rw [Source.Tree.expression] at hparts
  obtain ⟨declared, hdeclared⟩ := Shape.exists_read_delayed hx hparts hentry hu hc
  exact ⟨c, declared, hat, hdeclared⟩

/-- No literal begins with the word for names of the runtime. -/
theorem Numeral.LiteralText.not_reserved {value : NumericValue} {key : String}
    (h : LiteralText value key.toList) (rest : String) : key ≠ reservedStart ++ rest := by
  intro hkey
  obtain ⟨c, cs, hcs, hc⟩ := h.exists_cons
  rw [hkey, String.toList_append] at hcs
  obtain rfl : 'x' = c := (List.cons.inj hcs).1
  simp at hc

theorem Analysis.facts_of_ofMachine {m : DefinedMachine} {a : Analysis} (h : ofMachine m = .ok a) :
    a.machine = m ∧ a.facts = .ofGraph a.graph m.id := by
  unfold ofMachine at h
  split at h
  · obtain rfl := Except.ok.inj h
    exact ⟨rfl, rfl⟩
  · cases h

/-- **A literal key is a number of milliseconds exactly if it counts.** Each machine of a file has a
node for each state of its definition with a delay under a numeric literal. Where the literal is a
run of digits for a number that fits 64 bits, the transitions under it wait for that number, and the
table of delays has no such name; under any other literal they wait for a delay of that name, which
the table lists. This is so for every syntax tree that a file may have. -/
theorem delays_of_ofTree {t : Source.Tree} {settings : Settings} {analyses : List Analysis}
    (h : Analysis.ofTree settings t = .ok analyses) {i : Nat} {a : Analysis}
    (ha : analyses[i]? = some a) :
    ∃ calls call, t.machineCalls settings = .ok calls ∧
      calls[i]? = some call ∧ call.machine ⟨t.scope, settings⟩ = .ok a.machine ∧
      ∀ path key, t.scope.DelayAt call.definition path key →
        ∃ s declared, a.machine.tree.at? path = some s ∧
          s.decl.after.lookup key = some declared ∧
          ∃ n ∈ a.graph.nodes, n.path = path ∧
            ∀ value, Numeral.LiteralText value key.toList →
              (∀ count, Numeral.Counts value key.toList count →
                n.Waits (.millis count) declared ∧ key ∉ a.facts.delays.names) ∧
              ((∀ count, ¬ Numeral.Counts value key.toList count) →
                n.Waits (.named key) declared ∧
                  (declared ≠ [] → key ∈ a.facts.delays.names)) := by
  obtain ⟨machines, hmachines, h⟩ := Outcome.bind_eq_ok.1 h
  obtain ⟨calls, hcalls, hmachines⟩ := Outcome.bind_eq_ok.1 (Outcome.mapError_eq_ok.1 hmachines)
  obtain ⟨dm, hdm, hofMachine⟩ := Outcome.getElem?_of_forall₂ (Outcome.mapM_eq_ok.1 h).flip ha
  obtain ⟨call, hcall, hmachine⟩ :=
    Outcome.getElem?_of_forall₂ (Outcome.mapM_eq_ok.1 hmachines).flip hdm
  have hg := Analysis.ofMachine_eq_ok hofMachine
  obtain ⟨rfl, hfacts⟩ := Analysis.facts_of_ofMachine hofMachine
  obtain ⟨v, hv⟩ := call.exists_definition hmachine
  have htree := call.tree_of_machine hv hmachine
  refine ⟨calls, call, Outcome.mapError_eq_ok.1 hcalls, hcall, hmachine, fun path key hkey => ?_⟩
  obtain ⟨s, declared, hs, hdeclared⟩ := hkey.exists_declared hv htree
  obtain ⟨n, hn, hpath, hwaits⟩ := Graph.exists_waits hg hs hdeclared
  have hdelays : a.facts.delays = a.graph.table .delay := by rw [hfacts]; rfl
  refine ⟨s, declared, hs, hdeclared, n, hn, hpath, fun value hvalue =>
    ⟨fun count hcount => ?_, fun hnone => ?_⟩⟩
  · have hmillis := Delay.ofKey_of_counts hvalue hcount
    rw [String.ofList_toList] at hmillis
    refine ⟨hmillis ▸ hwaits, fun hmem => ?_⟩
    rw [hdelays] at hmem
    cases hmillis.symm.trans (Graph.ofKey_of_mem_delays hg hmem)
  · have hnamed := Delay.ofKey_of_not_counts hvalue hnone
    rw [String.ofList_toList] at hnamed
    rw [hnamed] at hwaits
    rw [hdelays]
    exact ⟨hwaits, fun hne => Graph.mem_delays_of_waits hn hwaits hne hvalue.not_reserved⟩

/-- The text of a file with a delay that is written with a separator. -/
def lampText : String :=
  "import \x7b Machine \x7d from '@xstate/compiled';\n" ++
    "Machine<C, E, 'lamp'>(\x7b initial: 'lit', " ++
    "states: \x7b lit: \x7b after: \x7b 1_000: 'dark' \x7d \x7d, dark: \x7b\x7d \x7d \x7d);\n"

/-- The key and the text of an object with one entry. -/
def Expression.soleText? : Expression → Option (String × String)
  | .object [.keyed key (.string text)] => some (key, text)
  | _ => none

theorem Expression.soleText?_eq_some {e : Expression} {key text : String}
    (h : e.soleText? = some (key, text)) : e = .object [.keyed key (.string text)] := by
  unfold soleText? at h
  split at h
  · obtain ⟨rfl, rfl⟩ := Prod.mk.inj (Option.some.inj h)
    rfl
  · cases h

/-- A thousand milliseconds that are written with a separator are waited for by name. -/
theorem delays_of_lamp : ∃ a, Analysis.ofText .plain {} lampText = .ok [a] ∧
    a.facts.delays.names = ["1_000"] ∧ ∃ s declared, a.machine.tree.at? ["lit"] = some s ∧
      s.decl.after.lookup "1_000" = some declared ∧
        ∃ n ∈ a.graph.nodes, n.path = ["lit"] ∧ n.Waits (.named "1_000") declared := by
  let file := Source.Tree.ofText .plain lampText
  have hfile : (file.machineCalls {}).toOption.any (fun calls =>
        calls.map (fun call => (file.scope.last? call.definition "states").bind fun x =>
          (file.scope.last? x "lit").bind fun s => (file.scope.last? s "after").bind fun y =>
            (file.scope.resolve y).soleText?) == [some ("1_000", "dark")]) = true ∧
      (Analysis.ofText .plain {} lampText).toOption.any (fun analyses =>
        analyses.map (fun a => a.facts.delays.names) == [["1_000"]]) = true := by
    decide +kernel
  obtain ⟨hcalls, hanalyses⟩ := hfile
  obtain ⟨calls, hcalls, hshown⟩ := Outcome.exists_eq_ok hcalls
  obtain ⟨analyses, hok, hnames⟩ := Outcome.exists_eq_ok hanalyses
  obtain ⟨a, rfl, hdelays⟩ := List.map_eq_singleton_iff.1 (beq_iff_eq.1 hnames)
  obtain ⟨calls', call, hcalls', hcall, -, hall⟩ := delays_of_ofTree hok (i := 0) rfl
  obtain rfl := Except.ok.inj (hcalls.symm.trans hcalls')
  obtain ⟨call', rfl, hwritten⟩ := List.map_eq_singleton_iff.1 (beq_iff_eq.1 hshown)
  obtain rfl := Option.some.inj hcall
  obtain ⟨x, hx, hwritten⟩ := Option.bind_eq_some_iff.1 hwritten
  obtain ⟨s, hs, hwritten⟩ := Option.bind_eq_some_iff.1 hwritten
  obtain ⟨y, hy, hwritten⟩ := Option.bind_eq_some_iff.1 hwritten
  have hobject := Expression.soleText?_eq_some hwritten
  have hdelay : file.scope.DelayAt call'.definition ["lit"] "1_000" :=
    ⟨s, y, [.node .pair [.leaf .number "1_000" 2, .node .string [.leaf .stringFragment "dark" 2]]],
      2, _, .child hx hs (.here s), hy, hobject, List.mem_cons_self⟩
  obtain ⟨s, declared, hat, hdeclared, n, hn, hpath, hwaits⟩ := hall _ _ hdelay
  have hdigits : Numeral.DigitsText 10 [1, 0, 0, 0] ['1', '_', '0', '0', '0'] :=
    .separated rfl (.more rfl (.more rfl (.last rfl)))
  have hliteral : Numeral.LiteralText (.number (Numeral.decimalRatio [1, 0, 0, 0] [] 0))
      "1_000".toList :=
    .decimal (.digits hdigits (by decide)) .missing .missing
  have hnone (count : Nat) :
      ¬ Numeral.Counts (.number (Numeral.decimalRatio [1, 0, 0, 0] [] 0)) "1_000".toList count :=
    fun hcount => absurd (hcount.digits '_' (by decide)) (by decide)
  exact ⟨a, hok, hdelays, s, declared, hat, hdeclared, n, hn, hpath,
    ((hwaits _ hliteral).2 hnone).1⟩

end Statechart
