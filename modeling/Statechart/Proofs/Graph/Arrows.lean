import Mathlib.Tactic.Conv
import Statechart.Graph.Basic
import Statechart.Proofs.InOrder

/-!
# Arrows and the events that lead to a state

Each target of each transition is one arrow. The events that can lead to a state are read off the
arrows; main statement: they are the events of the transitions that have the state among their
targets, each once, in the order of the transitions, and the order in which the arrows into one
state are at hand does not matter.
-/

namespace Statechart.Graph

variable (g : Graph) (i : Nat)

/-! ## 1. Transitions and arrows, in order -/

/-- All transitions, node by node. -/
def transitions : List Transition := g.nodes.flatMap Node.transitions

/-- At `[j, k]` stands the transition `k` of the node `j`. -/
def TransitionAt (a : List Nat) (t : Transition) : Prop :=
  ∃ j k n, a = [j, k] ∧ g.nodes[j]? = some n ∧ n.transitions[k]? = some t

theorem inOrder_transitions : InOrder (· < ·) g.TransitionAt g.transitions := by
  have hown (n : Node) : InOrder (· < ·) (fun b t => ∃ k, b = [k] ∧ n.transitions[k]? = some t)
      n.transitions :=
    (inOrder_getElem? n.transitions).readdress (fun k => [k]) fun k k' hk =>
      List.cons_lt_cons_iff.2 (Or.inl hk)
  refine (InOrder.flatMap g.nodes fun n _ => hown n).congr fun a t => ?_
  constructor
  · rintro ⟨j, k, n, rfl, hn, ht⟩
    exact ⟨j, [k], n, rfl, hn, k, rfl, ht⟩
  · rintro ⟨j, _, n, rfl, hn, k, rfl, ht⟩
    exact ⟨j, k, n, rfl, hn, ht⟩

/-- At `[j, k, m]` stands the arrow for the target `m` of the transition `k` of the node `j`. -/
def ArrowAt (a : List Nat) (x : Arrow) : Prop :=
  ∃ k m n t, a = [x.source, k, m] ∧ g.nodes[x.source]? = some n ∧ n.transitions[k]? = some t ∧
    t.targets[m]? = some x.target ∧ x.event = t.event.type

theorem inOrder_arrowsFrom (n : Node) :
    InOrder (· < ·) (fun b x => ∃ (k m : Nat) (t : Transition), b = [k, m] ∧ x.source = i ∧
      n.transitions[k]? = some t ∧ t.targets[m]? = some x.target ∧ x.event = t.event.type)
      (arrowsFrom i n) := by
  have hown (t : Transition) : InOrder (· < ·)
      (fun b x => ∃ m : Nat, b = [m] ∧ x.source = i ∧ t.targets[m]? = some x.target ∧
        x.event = t.event.type) (t.targets.map fun j => (⟨i, j, t.event.type⟩ : Arrow)) := by
    have htargets := ((inOrder_getElem? t.targets).readdress (fun m => [m]) fun m m' hm =>
      List.cons_lt_cons_iff.2 (Or.inl hm)).map fun j => (⟨i, j, t.event.type⟩ : Arrow)
    refine htargets.congr fun b x => ?_
    constructor
    · rintro ⟨m, rfl, rfl, hm, hevent⟩
      refine ⟨x.target, ⟨m, rfl, hm⟩, ?_⟩
      rw [← hevent]
    · rintro ⟨j, ⟨m, rfl, hm⟩, rfl⟩
      exact ⟨m, rfl, rfl, hm, rfl⟩
  refine (InOrder.flatMap n.transitions fun t _ => hown t).congr fun b x => ?_
  constructor
  · rintro ⟨k, m, t, rfl, hi, ht, hm, hevent⟩
    exact ⟨k, [m], t, rfl, ht, m, rfl, hi, hm, hevent⟩
  · rintro ⟨k, _, t, rfl, ht, m, rfl, hi, hm, hevent⟩
    exact ⟨k, m, t, rfl, hi, ht, hm, hevent⟩

/-- **There is one arrow for each target of each transition**, in the order of nodes, transitions
and targets. -/
theorem inOrder_arrows : InOrder (· < ·) g.ArrowAt g.arrows := by
  refine (InOrder.flatMap_zipIdx g.nodes fun j n _ => inOrder_arrowsFrom j n).congr fun a x => ?_
  constructor
  · rintro ⟨k, m, n, t, rfl, hn, ht, hm, hevent⟩
    exact ⟨x.source, [k, m], n, rfl, hn, k, m, t, rfl, rfl, ht, hm, hevent⟩
  · rintro ⟨j, _, n, rfl, hn, k, m, t, rfl, rfl, ht, hm, hevent⟩
    exact ⟨k, m, n, t, rfl, hn, ht, hm, hevent⟩

/-! ## 2. Sources -/

/-- The types of the events of the transitions that have `i` among their targets, in the order of
the transitions. -/
def arrivals : List String :=
  (g.transitions.filter fun t => i ∈ t.targets).map fun t => t.event.type

theorem eraseDups_map_const {α β : Type} [BEq β] [LawfulBEq β] (b : β) (xs : List α) :
    (xs.map fun _ => b).eraseDups = if xs = [] then [] else [b] := by
  induction xs with
  | nil => rfl
  | cons x xs ih =>
    rw [List.map_cons, eraseDups_cons_filter, ih, if_neg (List.cons_ne_nil x xs)]
    split
    · rfl
    · simp

/-- The events of the arrows from a node to `i` are those of its transitions there. -/
theorem eraseDups_events_arrowsFrom (j : Nat) (n : Node) :
    (((arrowsFrom j n).filter fun a => a.target == i).map Arrow.event).eraseDups =
      ((n.transitions.filter fun t => i ∈ t.targets).map fun t => t.event.type).eraseDups := by
  rw [arrowsFrom, List.filter_flatMap, List.map_flatMap]
  conv_rhs => rw [← List.flatMap_singleton' n.transitions, List.filter_flatMap, List.map_flatMap]
  refine eraseDups_flatMap_congr fun t _ => ?_
  -- a target that comes again gives an arrow again, with the same event
  rw [List.filter_map, List.map_map]
  show ((t.targets.filter fun k => k == i).map fun _ => t.event.type).eraseDups = _
  rw [eraseDups_map_const]
  by_cases hi : i ∈ t.targets
  · have hne : (t.targets.filter fun k => k == i) ≠ [] :=
      List.ne_nil_of_mem (List.mem_filter.2 ⟨hi, beq_self_eq_true i⟩)
    have hself : ([t].filter fun t => i ∈ t.targets) = [t] := by simp [hi]
    rw [if_neg hne, hself]
    rfl
  · have hnil : (t.targets.filter fun k => k == i) = [] := by
      rw [List.filter_eq_nil_iff]
      intro k hk hki
      exact hi (eq_of_beq hki ▸ hk)
    have hself : ([t].filter fun t => i ∈ t.targets) = [] := by simp [hi]
    rw [if_pos hnil, hself]
    rfl

/-- **The events that can lead to a node are those of the transitions there**, each once, in the
order of the transitions. -/
theorem sources_eq : g.sources i = (g.arrivals i).eraseDups := by
  have hnodes : g.nodes = g.nodes.zipIdx.map Prod.fst := (List.zipIdx_map_fst 0 g.nodes).symm
  rw [sources, arrows, arrivals, transitions, List.filter_flatMap, List.map_flatMap,
    List.filter_flatMap, List.map_flatMap]
  conv_rhs => rw [hnodes, List.flatMap_map]
  exact eraseDups_flatMap_congr fun p _ => eraseDups_events_arrowsFrom i p.2 p.1

/-- **Sources do not depend on the order in which incoming arrows are at hand**: numbered as they
are among all arrows, they are sorted by their numbers first. -/
theorem sources_of_incoming {incoming : List (Arrow × Nat)}
    (h : incoming.Perm (g.arrows.zipIdx.filter fun p => p.1.target == i)) :
    ((incoming.mergeSort fun p q => p.2 ≤ q.2).map fun p => p.1.event).eraseDups = g.sources i := by
  have hsorted : (g.arrows.zipIdx.filter fun p => p.1.target == i).Pairwise
      fun p q => decide (p.2 ≤ q.2) = true := by
    refine List.Pairwise.filter _ (List.pairwise_iff_getElem.2 fun j k hj hk hjk => ?_)
    simpa using Nat.le_of_lt hjk
  have hmerge : (incoming.mergeSort fun p q => p.2 ≤ q.2).Pairwise
      fun p q => decide (p.2 ≤ q.2) = true := by
    refine List.pairwise_mergeSort (fun p q r hpq hqr => ?_) (fun p q => ?_) incoming
    · exact decide_eq_true (Nat.le_trans (of_decide_eq_true hpq) (of_decide_eq_true hqr))
    · simpa using Nat.le_total p.2 q.2
  have heq : (incoming.mergeSort fun p q => p.2 ≤ q.2) =
      g.arrows.zipIdx.filter fun p => p.1.target == i := by
    refine List.Perm.eq_of_pairwise ?_ hmerge hsorted ((List.mergeSort_perm incoming _).trans h)
    -- no two arrows have one number
    intro p q hp hq hpq hqp
    have hnumber : p.2 = q.2 :=
      Nat.le_antisymm (of_decide_eq_true hpq) (of_decide_eq_true hqp)
    have hp' : p ∈ g.arrows.zipIdx :=
      (List.mem_filter.1 (h.mem_iff.1 (List.mem_mergeSort.1 hp))).1
    have hq' : q ∈ g.arrows.zipIdx := (List.mem_filter.1 hq).1
    rw [List.mem_zipIdx_iff_getElem?] at hp' hq'
    rw [hnumber] at hp'
    exact Prod.ext (Option.some.inj (hp'.symm.trans hq')) hnumber
  have hfst : (g.arrows.zipIdx.filter fun p => p.1.target == i).map Prod.fst =
      g.arrows.filter fun a => a.target == i := by
    conv_rhs => rw [← List.zipIdx_map_fst 0 g.arrows, List.filter_map]
    rfl
  rw [heq, sources, ← hfst, List.map_map]
  rfl

/-- What can lead to a node stands in the order of the transitions that first lead there. -/
theorem onceInOrder_sources : OnceInOrder (· < ·)
    (fun a e => ∃ t, g.TransitionAt a t ∧ i ∈ t.targets ∧ t.event.type = e) (g.sources i) := by
  rw [sources_eq]
  refine ((g.inOrder_transitions.filter fun t => i ∈ t.targets).map
    fun t => t.event.type).eraseDups.congr fun a e => ?_
  simp only [decide_eq_true_eq, and_assoc]

end Statechart.Graph
