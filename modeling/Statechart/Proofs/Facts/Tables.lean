import Statechart.Proofs.Facts.Sites
import Statechart.Proofs.Facts.States

/-!
# Tables and the sites they are made from

A table has a line for each name that has a site, and a line lists the states of these sites and the
events that they contribute. Main statements: names come in the order of their first sites; the
states of a line in the order of their nodes; and its events in the order in which they are first
contributed, where a site contributes the event of its transition, or those that lead to its node.
-/

namespace Statechart

namespace Graph

variable {g : Graph} {h : Handler} {x : String}

/-! ## 1. Mentions of a category and of a name -/

/-- A site has one node and one occasion. -/
theorem Site.unique {x' : String} {h' : Handler} {i i' : Nat} {n n' : Node} {o o' : Occasion}
    {a : List Nat} (hs : g.Site h x i n o a) (hs' : g.Site h' x' i' n' o' a) :
    i = i' ∧ n = n' ∧ o = o' := by
  obtain ⟨b, rfl, hn, hx⟩ := hs
  obtain ⟨b', heq, hn', hx'⟩ := hs'
  obtain ⟨rfl, rfl⟩ := List.cons.inj heq
  obtain rfl := Option.some.inj (hn.symm.trans hn')
  exact ⟨rfl, rfl, hx.occasion_unique hx'⟩

/-- The mentions of one category. -/
def mentionsOf (g : Graph) (h : Handler) : List Mention := g.mentions.filter fun m => m.handler == h

theorem inOrder_mentionsOf (g : Graph) (h : Handler) : InOrder (· < ·)
    (fun a (m : Mention) => ∃ x i n o, (∀ rest, x ≠ reservedStart ++ rest) ∧ g.Site h x i n o a ∧
      m = ⟨h, x, o.events (g.sources i), n.dotted⟩) (g.mentionsOf h) := by
  refine (g.inOrder_mentions.filter fun m => m.handler == h).congr fun a m => ?_
  simp only [beq_iff_eq]
  constructor
  · rintro ⟨x, i, n, o, hx, hs, rfl⟩
    exact ⟨⟨⟨h, x, i, n, o, hs, rfl⟩, hx⟩, rfl⟩
  · rintro ⟨⟨⟨h', x, i, n, o, hs, rfl⟩, hx⟩, rfl⟩
    exact ⟨x, i, n, o, hx, hs, rfl⟩

theorem inOrder_mentionsOf_name (hx : ∀ rest, x ≠ reservedStart ++ rest) : InOrder (· < ·)
    (fun a (m : Mention) => ∃ i n o, g.Site h x i n o a ∧
      m = ⟨h, x, o.events (g.sources i), n.dotted⟩)
    ((g.mentionsOf h).filter fun m => m.name == x) := by
  refine ((g.inOrder_mentionsOf h).filter fun m => m.name == x).congr fun a m => ?_
  simp only [beq_iff_eq]
  constructor
  · rintro ⟨i, n, o, hs, rfl⟩
    exact ⟨⟨x, i, n, o, hx, hs, rfl⟩, rfl⟩
  · rintro ⟨⟨x', i, n, o, -, hs, rfl⟩, rfl⟩
    exact ⟨i, n, o, hs, rfl⟩

/-! ## 2. Names -/

theorem lines_table (g : Graph) (h : Handler) : (g.table h).lines =
    ((g.mentionsOf h).map Mention.name).eraseDups.map
      (Table.lineOf (g.mentionsOf h) h g.provided) := rfl

theorem names_table (g : Graph) (h : Handler) :
    (g.table h).names = ((g.mentionsOf h).map Mention.name).eraseDups := by
  rw [Table.names, lines_table, List.map_map]
  exact List.map_id _

/-- **A table has each name once that has a site and is not the runtime's**, in the order of first
sites. -/
theorem onceInOrder_names (g : Graph) (h : Handler) : OnceInOrder (· < ·)
    (fun a x => (∀ rest, x ≠ reservedStart ++ rest) ∧ ∃ i n o, g.Site h x i n o a)
    (g.table h).names := by
  rw [names_table]
  refine ((g.inOrder_mentionsOf h).map Mention.name).eraseDups.congr fun a x => ?_
  constructor
  · rintro ⟨hx, i, n, o, hs⟩
    exact ⟨_, ⟨x, i, n, o, hx, hs, rfl⟩, rfl⟩
  · rintro ⟨_, ⟨x, i, n, o, hx, hs, rfl⟩, rfl⟩
    exact ⟨hx, i, n, o, hs⟩

/-- A line is that of its name. -/
theorem eq_lineOf_of_mem {line : Line} (hline : line ∈ (g.table h).lines) :
    line = Table.lineOf (g.mentionsOf h) h g.provided line.name ∧
      ∀ rest, line.name ≠ reservedStart ++ rest := by
  have hname : line.name ∈ (g.table h).names := List.mem_map_of_mem hline
  obtain ⟨a, hx, -⟩ := (g.onceInOrder_names h).mem_iff line.name |>.1 hname
  rw [lines_table] at hline
  obtain ⟨x, -, rfl⟩ := List.mem_map.1 hline
  exact ⟨rfl, hx⟩

/-! ## 3. Events -/

/-- **What a site in the node `i` contributes**, by its occasion: in a transition the event of the
transition; on exit nothing; else the event of each transition that has the node among its targets,
at the address of that transition. -/
inductive Contributes (g : Graph) (i : Nat) : Occasion → List Nat → String → Prop
  | taking (event : String) : Contributes g i (.taking event) [] event
  | arriving {c : List Nat} {t : Transition} (hc : g.TransitionAt c t) (hi : i ∈ t.targets) :
      Contributes g i .arriving c t.event.type

theorem onceInOrder_events (g : Graph) (i : Nat) (o : Occasion) :
    OnceInOrder (· < ·) (g.Contributes i o) (o.events (g.sources i)) := by
  cases o with
  | taking event =>
    refine (InOrder.singleton [] event).eraseDups.congr fun c e => ?_
    constructor
    · intro hc
      cases hc
      exact ⟨rfl, rfl⟩
    · rintro ⟨rfl, rfl⟩
      exact .taking e
  | leaving =>
    refine (InOrder.nil ?_).eraseDups
    intro c e hc
    cases hc
  | arriving =>
    refine (g.onceInOrder_sources i).congr fun c e => ?_
    constructor
    · intro hc
      cases hc with
      | arriving hc hi => exact ⟨_, hc, hi, rfl⟩
    · rintro ⟨t, hc, hi, rfl⟩
      exact .arriving hc hi

/-- What is contributed is the event of some transition. -/
theorem exists_transition_of_contributes {i : Nat} {n : Node} {o : Occasion} {a c : List Nat}
    {e : String} (hs : g.Site h x i n o a) (hc : g.Contributes i o c e) :
    ∃ m ∈ g.nodes, ∃ t ∈ m.transitions, t.event.type = e := by
  obtain ⟨b, rfl, hn, hx⟩ := hs
  cases hc with
  | taking event =>
    cases hx with
    | transition hk hb => exact ⟨n, List.mem_of_getElem? hn, _, List.mem_of_getElem? hk, rfl⟩
  | arriving hc hi =>
    obtain ⟨j, k, m, rfl, hm, ht⟩ := hc
    exact ⟨m, List.mem_of_getElem? hm, _, List.mem_of_getElem? ht, rfl⟩

/-- **The events of a name come in the order in which its sites first contribute them.** -/
theorem onceInOrder_events_lineOf (hx : ∀ rest, x ≠ reservedStart ++ rest) :
    OnceInOrder (Prod.Lex (· < ·) (· < ·))
      (fun (p : List Nat × List Nat) e => e ≠ "" ∧
        ∃ i n o, g.Site h x i n o p.1 ∧ g.Contributes i o p.2 e)
      (Table.lineOf (g.mentionsOf h) h g.provided x).events := by
  have hevents : ∀ a m, (∃ i n o, g.Site h x i n o a ∧
      m = (⟨h, x, o.events (g.sources i), n.dotted⟩ : Mention)) →
      OnceInOrder (· < ·) (fun c e => ∃ i n o, g.Site h x i n o a ∧ g.Contributes i o c e)
        m.events := by
    rintro a m ⟨i, n, o, hs, rfl⟩
    refine (g.onceInOrder_events i o).congr fun c e => ?_
    constructor
    · rintro ⟨i', n', o', hs', hc⟩
      obtain ⟨rfl, rfl, rfl⟩ := hs.unique hs'
      exact hc
    · intro hc
      exact ⟨i, n, o, hs, hc⟩
  have hline := (OnceInOrder.bind (inOrder_mentionsOf_name hx) hevents).filter fun e => e != ""
  rw [← eraseDups_filter] at hline
  refine hline.congr fun p e => ?_
  simp only [bne_iff_ne]
  constructor
  · rintro ⟨he, i, n, o, hs, hc⟩
    exact ⟨⟨_, ⟨i, n, o, hs, rfl⟩, i, n, o, hs, hc⟩, he⟩
  · rintro ⟨⟨_, -, i, n, o, hs, hc⟩, he⟩
    exact ⟨he, i, n, o, hs, hc⟩

/-! ## 4. States -/

/-- **The states of a name are those of the nodes in which it has sites, in the order of these
nodes**; the root is not named. -/
theorem onceInOrder_states_lineOf (hx : ∀ rest, x ≠ reservedStart ++ rest) :
    OnceInOrder (· < ·)
      (fun (i : Nat) s => s ≠ "" ∧ ∃ n o a, g.Site h x i n o a ∧ n.dotted = s)
      (Table.lineOf (g.mentionsOf h) h g.provided x).states := by
  have hsites : OnceInOrder (· < ·)
      (fun a s => s ≠ "" ∧ ∃ i n o, g.Site h x i n o a ∧ n.dotted = s)
      (Table.lineOf (g.mentionsOf h) h g.provided x).states := by
    refine (((inOrder_mentionsOf_name hx).map Mention.state).filter
      fun s => s != "").eraseDups.congr fun a s => ?_
    simp only [bne_iff_ne]
    constructor
    · rintro ⟨hs, i, n, o, hsite, rfl⟩
      exact ⟨⟨_, ⟨i, n, o, hsite, rfl⟩, rfl⟩, hs⟩
    · rintro ⟨⟨_, ⟨i, n, o, hsite, rfl⟩, rfl⟩, hs⟩
      exact ⟨hs, i, n, o, hsite, rfl⟩
  -- an address begins with the number of the node, and sites in one node have one state
  refine (hsites.readdress (fun a => a.headD 0) ?_).congr fun i s => ?_
  · rintro _ s _ s' ⟨-, i, n, o, ⟨b, rfl, hn, -⟩, rfl⟩ ⟨-, i', n', o', ⟨b', rfl, hn', -⟩, rfl⟩
      hne hlt
    rcases List.cons_lt_cons_iff.1 hlt with hlt | ⟨rfl, -⟩
    · exact hlt
    · obtain rfl := Option.some.inj (hn.symm.trans hn')
      exact absurd rfl hne
  · constructor
    · rintro ⟨hs, n, o, _, ⟨b, rfl, hn, hb⟩, rfl⟩
      exact ⟨i :: b, rfl, hs, i, n, o, ⟨b, rfl, hn, hb⟩, rfl⟩
    · rintro ⟨_, rfl, hs, i, n, o, ⟨b, rfl, hn, hb⟩, rfl⟩
      exact ⟨hs, n, o, i :: b, ⟨b, rfl, hn, hb⟩, rfl⟩

/-! ## 5. Tables of built graphs -/

variable {t : StateTree} {provided : Provided}

theorem provided_of_ofTree? (hg : ofTree? t provided = .ok g) : g.provided = provided := by
  obtain ⟨l, -, hg⟩ := Outcome.bind_eq_ok.1 hg
  obtain ⟨nodes, -, hg⟩ := Outcome.bind_eq_ok.1 hg
  rw [← Except.ok.inj hg]

/-- **A table holds exactly the names that are referred to**: each name once that has a site and is
not the runtime's, in the order of first sites. A line is required where no implementation is
provided, and the table where a line is. -/
theorem names_of_ofTree? (hg : ofTree? t provided = .ok g) (id : String) (h : Handler) :
    OnceInOrder (· < ·)
        (fun a x => (∀ rest, x ≠ reservedStart ++ rest) ∧ ∃ i n o, g.Site h x i n o a)
        ((Facts.ofGraph g id).table h).names ∧
      (∀ line ∈ ((Facts.ofGraph g id).table h).lines,
        line.required = true ↔ line.name ∉ provided.names h) ∧
      (((Facts.ofGraph g id).table h).required = true ↔
        ∃ line ∈ ((Facts.ofGraph g id).table h).lines, line.required = true) := by
  rw [Facts.table_ofGraph]
  refine ⟨g.onceInOrder_names h, fun line hline => ?_, List.any_eq_true⟩
  obtain ⟨hlineOf, -⟩ := eq_lineOf_of_mem hline
  have hrequired : line.required = !provided.provides h line.name := by
    rw [hlineOf, Table.lineOf, provided_of_ofTree? hg]
  rw [hrequired, Bool.not_eq_true', Provided.provides, List.contains_eq_mem,
    decide_eq_false_iff_not]

/-- A boiler that is quiet about going out, and waits in a way of its own. -/
def boiler : StateTree :=
  .state { id := some "boiler", initial := some "cold" } [
    ("cold", .state {
      on := [("HEAT", [{
        targets := ["hot"], cond := some (.named "filled"), actions := [.named "light"] }])]
      exit := [.choose [.mk (some (.named "noisy")) [
        .choose [.mk (some (.named "late")) [.named "whisper", .named "xstate.log"]],
        .named "light"]]] } []),
    ("hot", .state {
      after := [("patience", [{ targets := ["cold", "hot"], actions := [.named "whisper"] }])]
      entry := [.named "light"]
      invoke := [{ src := .named "pump", onDone := [{ targets := [".boiling"] }] }]
      activities := [.named "hum"] } [("boiling", .empty)])]

theorem names_late_boiler : ∃ g, ofTree? boiler { guards := ["noisy"] } = .ok g ∧
    ((Facts.ofGraph g "boiler").table .guard).names = ["filled", "noisy", "late"] ∧
    ((Facts.ofGraph g "boiler").table .guard).required = true ∧
    ∃ i n o a, g.Site .guard "late" i n o a := by
  obtain ⟨g, hg, hlines⟩ := Outcome.exists_eq_ok (x := ofTree? boiler { guards := ["noisy"] })
    (p := fun g => decide (((Facts.ofGraph g "boiler").table .guard).names =
      ["filled", "noisy", "late"])) (by decide +kernel)
  have hnames := of_decide_eq_true hlines
  obtain ⟨honce, hrequired, htable⟩ := names_of_ofTree? hg "boiler" .guard
  have hlate : "late" ∈ ((Facts.ofGraph g "boiler").table .guard).names := by
    rw [hnames]
    decide
  obtain ⟨a, -, i, n, o, hsite⟩ := (honce.mem_iff "late").1 hlate
  obtain ⟨line, hline, hname⟩ := List.mem_map.1 hlate
  refine ⟨g, hg, hnames, htable.2 ⟨line, hline, (hrequired line hline).2 ?_⟩, i, n, o, a, hsite⟩
  rw [hname]
  decide

/-- **A line holds exactly the states and events of the sites of its name.** The states are the
nodes with such sites, by their non-empty paths, each once and in the order of the nodes; the events
are those that the sites contribute, each non-empty one once, in the order in which they come first.
So every state that is listed is among the reported paths, and every event is that of a
transition. -/
theorem line_of_ofTree? (hg : ofTree? t provided = .ok g) (id : String) (h : Handler) {line : Line}
    (hline : line ∈ ((Facts.ofGraph g id).table h).lines) :
    OnceInOrder (· < ·)
        (fun (i : Nat) s => s ≠ "" ∧ ∃ n o a, g.Site h line.name i n o a ∧ n.dotted = s)
        line.states ∧
      OnceInOrder (Prod.Lex (· < ·) (· < ·))
        (fun (p : List Nat × List Nat) e => e ≠ "" ∧
          ∃ i n o, g.Site h line.name i n o p.1 ∧ g.Contributes i o p.2 e)
        line.events ∧
      (∀ s ∈ line.states, s ∈ (Facts.ofGraph g id).paths) ∧
      ∀ e ∈ line.events, ∃ n ∈ g.nodes, ∃ tr ∈ n.transitions, tr.event.type = e := by
  rw [Facts.table_ofGraph] at hline
  obtain ⟨hlineOf, hname⟩ := eq_lineOf_of_mem hline
  have hstates := onceInOrder_states_lineOf (g := g) (h := h) hname
  have hevents := onceInOrder_events_lineOf (g := g) (h := h) hname
  rw [← hlineOf] at hstates hevents
  refine ⟨hstates, hevents, fun s hs => ?_, fun e he => ?_⟩
  · obtain ⟨i, hne, n, o, a, ⟨b, -, hn, -⟩, rfl⟩ := (hstates.mem_iff s).1 hs
    exact mem_paths hg hn hne
  · obtain ⟨p, -, i, n, o, hsite, hc⟩ := (hevents.mem_iff e).1 he
    exact exists_transition_of_contributes hsite hc

theorem line_light_boiler : ∃ g line, ofTree? boiler {} = .ok g ∧
    line ∈ ((Facts.ofGraph g "boiler").table .action).lines ∧ line.name = "light" ∧
    line.states = ["cold", "hot"] ∧ line.events = ["HEAT", "xstate.after(patience)#boiler.hot"] ∧
    ∃ n ∈ g.nodes, ∃ tr ∈ n.transitions, tr.event.type = "xstate.after(patience)#boiler.hot" := by
  obtain ⟨g, hg, hlines⟩ := Outcome.exists_eq_ok (x := ofTree? boiler {})
    (p := fun g => decide (((Facts.ofGraph g "boiler").table .action).lines[0]? =
      some (Line.mk "light" true ["HEAT", "xstate.after(patience)#boiler.hot"] ["cold", "hot"])))
    (by decide +kernel)
  have hline := List.mem_of_getElem? (of_decide_eq_true hlines)
  obtain ⟨-, -, -, hevents⟩ := line_of_ofTree? hg "boiler" .action hline
  exact ⟨g, _, hg, hline, rfl, rfl, rfl, hevents _ (by decide)⟩

end Graph

end Statechart
