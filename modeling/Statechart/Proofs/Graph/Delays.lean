import Statechart.Proofs.Facts.Tables
import Statechart.Proofs.Number.Key

/-!
# Delays

A delayed transition waits for what is read off its key: a number of milliseconds, or a name that
the table of delays lists. Main statements: a node waits as its state declares, and no key that is
read as a number is listed as a name.
-/

namespace Statechart

/-! ## 1. Names of delays -/

mutual

/-- A name in an action is that of an action or of a guard. -/
theorem Action.Names.handler_ne_delay {x : String} {h : Handler} {a : Action} {b : List Nat} :
    Action.Names x h a b → h ≠ .delay
  | .own => by decide
  | .choose _ hb => hb.handler_ne_delay

theorem Action.NamesGuarded.handler_ne_delay {x : String} {h : Handler} {cond : Option Ref}
    {actions : List Action} {b : List Nat} :
    Action.NamesGuarded x h cond actions b → h ≠ .delay
  | .guard => by decide
  | .action _ ha => ha.handler_ne_delay

end

/-- A name of a delay in a node is what one of the transitions waits for. -/
theorem Node.Names.exists_delay {n : Node} {x : String} {o : Occasion} {b : List Nat}
    (h : n.Names x .delay o b) :
    ∃ tr ∈ n.transitions, ∃ state, tr.event = .after (.named x) state := by
  cases h with
  | transition _ hb => exact absurd rfl hb.handler_ne_delay
  | delay hk ht => exact ⟨_, List.mem_of_getElem? hk, _, ht⟩
  | exit _ ha => exact absurd rfl ha.handler_ne_delay
  | entry _ ha => exact absurd rfl ha.handler_ne_delay

/-! ## 2. What a node waits for -/

/-- **The node waits for the delay with the declared transitions**, which stand together among its
own. -/
def Node.Waits (n : Node) (delay : Delay) (declared : List TransitionDecl) : Prop :=
  ∃ before built behind, n.transitions = before ++ built ++ behind ∧
    List.Forall₂ (fun (c : TransitionDecl) (tr : Transition) =>
      tr.event = .after delay n.id ∧ tr.cond = c.cond ∧ tr.actions = c.actions) declared built

namespace Layout

/-- The transitions under a key stand together among those of the node. -/
theorem waits_of_node? {l : Layout} {i : Nat} {d : StateDecl} {n : Node} {key : String}
    {declared : List TransitionDecl} (hn : l.node? i n.toPlace d = .ok n)
    (hkey : d.after.lookup key = some declared) : n.Waits (Delay.ofKey key) declared := by
  obtain ⟨-, htrs, -⟩ := node?_eq_ok hn
  obtain ⟨before, rest, hafter, -⟩ := Assoc.lookup_eq_some_iff.1 hkey
  let waiting (p : String × List TransitionDecl) : List (Event × TransitionDecl) :=
    p.2.map (Event.after (Delay.ofKey p.1) n.id, ·)
  obtain ⟨front, back, hcut⟩ : ∃ front back,
      d.transitions n.id = front ++ (waiting (key, declared) ++ back) := by
    refine ⟨(d.on.flatMap fun p => p.2.map (Event.named p.1, ·)) ++
      d.always.map (Event.always, ·) ++ before.flatMap waiting, rest.flatMap waiting ++
      (d.onDone.map (Event.doneState n.id, ·) ++
      (d.services n.id).flatMap fun p => p.2.transitions p.1), ?_⟩
    rw [StateDecl.transitions, hafter, List.flatMap_append, List.flatMap_cons]
    simp only [List.append_assoc]
    rfl
  rw [hcut] at htrs
  have hrest := List.forall₂_drop_append _ _ _ htrs.flip
  have hbuilt := (List.forall₂_take_append _ _ _ hrest).flip
  refine ⟨n.transitions.take front.length, _,
    (n.transitions.drop front.length).drop (waiting (key, declared)).length, ?_,
    (List.forall₂_map_left_iff.1 hbuilt).imp fun c tr htr => ?_⟩
  · rw [List.append_assoc, List.take_append_drop, List.take_append_drop]
  · obtain ⟨hevent, hcond, hactions, -⟩ := transition?_eq_ok htr
    exact ⟨hevent, hcond, hactions⟩

/-- A node waits for no delay but those that are read off the keys of its state. -/
theorem exists_key_of_node? {l : Layout} {i : Nat} {d : StateDecl} {n : Node}
    (hn : l.node? i n.toPlace d = .ok n) {tr : Transition} (htr : tr ∈ n.transitions)
    {delay : Delay} {state : String} (hevent : tr.event = .after delay state) :
    ∃ key, delay = Delay.ofKey key := by
  obtain ⟨-, htrs, -⟩ := node?_eq_ok hn
  obtain ⟨⟨event, c⟩, hmem, hread⟩ := Outcome.exists_left_of_mem htrs htr
  obtain ⟨rfl, -⟩ := transition?_eq_ok hread
  rw [hevent] at hmem
  simp only [StateDecl.transitions, StateDecl.services, InvokeDecl.transitions, List.mem_append,
    List.mem_flatMap, List.mem_map, Prod.mk.injEq, reduceCtorEq, false_and, and_false, exists_false,
    or_false, false_or] at hmem
  obtain ⟨⟨key, ts⟩, -, c', -, hevent, -⟩ := hmem
  exact ⟨key, (Event.after.inj hevent).1.symm⟩

end Layout

/-! ## 3. Graphs -/

namespace Graph

variable {t s : StateTree} {provided : Provided} {g : Graph} {path : List String} {key : String}
  {declared : List TransitionDecl}

/-- **A node waits as its state declares.** -/
theorem exists_waits (hg : ofTree? t provided = .ok g) (hs : t.at? path = some s)
    (hkey : s.decl.after.lookup key = some declared) :
    ∃ n ∈ g.nodes, n.path = path ∧ n.Waits (Delay.ofKey key) declared := by
  obtain ⟨i, parent, hi⟩ := StateTree.Located.root.of_at? hs
  obtain ⟨n, hn, hplace, hnode⟩ := exists_node hg hi
  exact ⟨n, List.mem_of_getElem? hn, by rw [hplace]; rfl, Layout.waits_of_node? hnode hkey⟩

/-- **Every name in the table of delays is a key that is read as a name.** -/
theorem ofKey_of_mem_delays (hg : ofTree? t provided = .ok g)
    (hkey : key ∈ (g.table .delay).names) : Delay.ofKey key = .named key := by
  obtain ⟨a, -, i, n, o, b, -, hn, hnames⟩ := ((g.onceInOrder_names .delay).mem_iff key).1 hkey
  obtain ⟨tr, htr, state, hevent⟩ := hnames.exists_delay
  obtain ⟨path, parent, s, hs, hplace⟩ := located_of_node hg hn
  obtain ⟨n', hn', -, hnode⟩ := exists_node hg hs
  obtain rfl := Option.some.inj (hn.symm.trans hn')
  obtain ⟨key', hkey'⟩ := Layout.exists_key_of_node? hnode htr hevent
  obtain rfl : key = key' := Delay.eq_of_ofKey hkey'.symm
  exact hkey'.symm

/-- A delay by name that a transition waits for is in the table. -/
theorem mem_delays_of_waits {n : Node} (hn : n ∈ g.nodes) (h : n.Waits (.named key) declared)
    (hdeclared : declared ≠ []) (hname : ∀ rest, key ≠ reservedStart ++ rest) :
    key ∈ (g.table .delay).names := by
  obtain ⟨i, hi⟩ := List.mem_iff_getElem?.1 hn
  obtain ⟨before, built, behind, htrs, hbuilt⟩ := h
  obtain ⟨c, declared, rfl⟩ := List.exists_cons_of_ne_nil hdeclared
  obtain ⟨tr, built, ⟨hevent, -⟩, -, rfl⟩ := List.forall₂_cons_left_iff.1 hbuilt
  have htr : tr ∈ n.transitions := by
    rw [htrs]
    simp
  obtain ⟨k, hk⟩ := List.mem_iff_getElem?.1 htr
  exact ((g.onceInOrder_names .delay).mem_iff key).2
    ⟨_, hname, i, n, _, _, rfl, hi, .delay hk hevent⟩

end Graph

end Statechart
