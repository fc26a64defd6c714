import Statechart.Facts
import Statechart.Proofs.Graph.Arrows

/-!
# Sites

A site is where a name is written in a machine: as an action or as a guard, also within the branches
of choices, as a service, an activity or a delay. It has an address, a list of numbers that begins
with that of its node, and addresses are ordered as sites are written. Main statement: the mentions
of a graph are those at its sites, in the order of the addresses.
-/

namespace Statechart

/-! ## 1. Where names stand -/

mutual

/-- **The name `x` stands in the action**, for an implementation of the category: it is the action,
or it stands in a branch of the choice, whose number leads the address. -/
inductive Action.Names (x : String) : Handler → Action → List Nat → Prop
  | own : Action.Names x .action (.named x) []
  | choose {h : Handler} {branches : List Branch} {k : Nat} {cond : Option Ref}
      {actions : List Action} {b : List Nat} (hk : branches[k]? = some (.mk cond actions))
      (hb : Action.NamesGuarded x h cond actions b) : Action.Names x h (.choose branches) (k :: b)

/-- The name stands in some actions that a guard may precede: it is the guard, at `[0]`, or it
stands in one of the actions, which are numbered behind a `1`. -/
inductive Action.NamesGuarded (x : String) : Handler → Option Ref → List Action → List Nat → Prop
  | guard {actions : List Action} : Action.NamesGuarded x .guard (some (.named x)) actions [0]
  | action {h : Handler} {cond : Option Ref} {actions : List Action} {m : Nat} {a : Action}
      {b : List Nat} (hm : actions[m]? = some a) (ha : Action.Names x h a b) :
      Action.NamesGuarded x h cond actions (1 :: m :: b)

end

/-- A guard stands at `0`, the actions behind it at `1`. -/
theorem Action.NamesGuarded.exists_lt {x : String} {h : Handler} {cond : Option Ref}
    {actions : List Action} {b : List Nat} (hb : Action.NamesGuarded x h cond actions b) :
    ∃ j b', b = j :: b' ∧ j < 2 := by
  cases hb with
  | guard => exact ⟨0, [], rfl, by omega⟩
  | action hm ha => exact ⟨1, _, rfl, by omega⟩

/-- When something with a name may be run. -/
inductive Occasion
  /-- With a transition that waits for an event of the type. -/
  | taking (event : String)
  /-- When the state is left. -/
  | leaving
  /-- When the state is entered, or while it is active. -/
  | arriving
deriving DecidableEq, Repr

/-- The types of the events for which something may be run, where `incoming` can lead to the
state. -/
def Occasion.events (incoming : List String) : Occasion → List String
  | taking event => [event]
  | leaving => []
  | arriving => incoming

/-- **The name `x` stands in the node**, for an implementation of the category that is run on the
occasion: in a transition, on exit, on entry, as a service or as an activity. -/
inductive Node.Names (n : Node) (x : String) : Handler → Occasion → List Nat → Prop
  | transition {h : Handler} {k : Nat} {t : Transition} {b : List Nat}
      (hk : n.transitions[k]? = some t) (hb : Action.NamesGuarded x h t.cond t.actions b) :
      Node.Names n x h (.taking t.event.type) (0 :: k :: b)
  | delay {k : Nat} {t : Transition} {state : String} (hk : n.transitions[k]? = some t)
      (ht : t.event = .after (.named x) state) : Node.Names n x .delay .arriving [0, k, 2]
  | exit {h : Handler} {m : Nat} {a : Action} {b : List Nat} (hm : n.exit[m]? = some a)
      (ha : a.Names x h b) : Node.Names n x h .leaving (1 :: m :: b)
  | entry {h : Handler} {m : Nat} {a : Action} {b : List Nat} (hm : n.entry[m]? = some a)
      (ha : a.Names x h b) : Node.Names n x h .arriving (2 :: m :: b)
  | service {m : Nat} {s : Invocation} (hm : n.invocations[m]? = some s)
      (hs : s.src = .named x) : Node.Names n x .service .arriving [3, m]
  | activity {m : Nat} (hm : n.activities[m]? = some (.named x)) :
      Node.Names n x .activity .arriving [4, m]

/-- **A site of the name `x`**, for an implementation of the category `h`: it stands in the node
`n`, the one of the number `i`. -/
def Graph.Site (g : Graph) (h : Handler) (x : String) (i : Nat) (n : Node) (o : Occasion)
    (a : List Nat) : Prop :=
  ∃ b, a = i :: b ∧ g.nodes[i]? = some n ∧ n.Names x h o b

/-- One address in a node is of one occasion. -/
theorem Node.Names.occasion_unique {n : Node} {x x' : String} {h h' : Handler} {o o' : Occasion}
    {b : List Nat} (hx : n.Names x h o b) (hx' : n.Names x' h' o' b) : o = o' := by
  -- a guard or an action of a transition has another number than its delay
  have hdelay {x : String} {h : Handler} {t : Transition} :
      ¬ Action.NamesGuarded x h t.cond t.actions [2] := by
    intro hb
    obtain ⟨j, _, hj, hlt⟩ := hb.exists_lt
    obtain ⟨rfl, -⟩ := List.cons.inj hj
    omega
  cases hx with
  | transition hk hb =>
    cases hx' with
    | transition hk' hb' => rw [Option.some.inj (hk.symm.trans hk')]
    | delay hk' ht' => exact absurd hb hdelay
  | delay hk ht =>
    cases hx' with
    | transition hk' hb' => exact absurd hb' hdelay
    | delay hk' ht' => rfl
  | exit hm ha => cases hx'; rfl
  | entry hm ha => cases hx'; rfl
  | service hm hs => cases hx'; rfl
  | activity hm => cases hx'; rfl

/-! ## 2. Mentions in actions -/

namespace Mention

variable (events : List String) (state : String)

theorem ofActions_eq_flatMap (actions : List Action) :
    ofActions events state actions = actions.flatMap (ofAction events state) := by
  induction actions with
  | nil => rfl
  | cons a rest ih => rw [ofActions, ih, List.flatMap_cons]

theorem ofBranches_eq_flatMap (branches : List Branch) :
    ofBranches events state branches = branches.flatMap (ofBranch events state) := by
  induction branches with
  | nil => rfl
  | cons b rest ih => rw [ofBranches, ih, List.flatMap_cons]

theorem ofBranch_mk (cond : Option Ref) (actions : List Action) :
    ofBranch events state (.mk cond actions) =
      cond.toList.flatMap (ofRef .guard events state) ++ ofActions events state actions := by
  cases cond with
  | none => rfl
  | some c => rw [ofBranch, Option.toList_some, List.flatMap_singleton]

theorem inOrder_ofRef (h : Handler) (r : Ref) :
    InOrder (· < ·) (fun (b : List Nat) m => b = [] ∧ ∃ x, r = .named x ∧ m = ⟨h, x, events, state⟩)
      (ofRef h events state r) := by
  cases r with
  | named x =>
    refine (InOrder.singleton [] _).congr fun b m => ?_
    simp
  | inline => exact .nil fun b m => by simp

theorem inOrder_cond (cond : Option Ref) :
    InOrder (· < ·) (fun (b : List Nat) (m : Mention) =>
      b = [] ∧ ∃ x, cond = some (.named x) ∧ m = ⟨.guard, x, events, state⟩)
      (cond.toList.flatMap (ofRef .guard events state)) := by
  cases cond with
  | none => exact .nil fun b m => by simp
  | some c =>
    rw [Option.toList_some, List.flatMap_singleton]
    refine (inOrder_ofRef events state .guard c).congr fun b m => ?_
    simp only [Option.some.injEq]

/-- The mentions in actions that a guard may precede, where those in each of them are in order. -/
theorem inOrder_guarded (cond : Option Ref) (actions : List Action)
    (hactions : ∀ a ∈ actions, InOrder (· < ·)
      (fun b (m : Mention) => ∃ h x, a.Names x h b ∧ m = ⟨h, x, events, state⟩)
      (ofAction events state a)) :
    PartsInOrder 2 (fun b (m : Mention) =>
      ∃ h x, Action.NamesGuarded x h cond actions b ∧ m = ⟨h, x, events, state⟩)
      (cond.toList.flatMap (ofRef .guard events state) ++ ofActions events state actions) := by
  have hbehind := InOrder.flatMap actions hactions
  rw [ofActions_eq_flatMap]
  refine ((PartsInOrder.first (inOrder_cond events state cond)).append hbehind).congr fun b m => ?_
  constructor
  · rintro ⟨h, x, hx, rfl⟩
    cases hx with
    | guard => exact Or.inl ⟨_, rfl, rfl, x, rfl, rfl⟩
    | action hm ha => exact Or.inr ⟨_, rfl, _, _, _, rfl, hm, h, x, ha, rfl⟩
  · rintro (⟨_, rfl, rfl, x, rfl, rfl⟩ | ⟨_, rfl, m, b, a, rfl, hm, h, x, ha, rfl⟩)
    · exact ⟨.guard, x, .guard, rfl⟩
    · exact ⟨h, x, .action hm ha, rfl⟩

/-- **The mentions in an action stand in the order of the branches of its choices.** -/
theorem inOrder_ofAction (a : Action) : InOrder (· < ·)
    (fun b m => ∃ h x, a.Names x h b ∧ m = ⟨h, x, events, state⟩) (ofAction events state a) := by
  match a with
  | .named x =>
    rw [ofAction]
    refine (InOrder.singleton [] _).congr fun b m => ?_
    constructor
    · rintro ⟨h, x, hx, rfl⟩
      cases hx
      exact ⟨rfl, rfl⟩
    · rintro ⟨rfl, rfl⟩
      exact ⟨.action, x, .own, rfl⟩
  | .inline =>
    rw [ofAction]
    exact .nil fun b m ⟨h, x, hx, _⟩ => by cases hx
  | .builtin _ =>
    rw [ofAction]
    exact .nil fun b m ⟨h, x, hx, _⟩ => by cases hx
  | .choose branches =>
    have hbranches : ∀ br ∈ branches, InOrder (· < ·) (fun b m => ∃ cond actions,
        br = .mk cond actions ∧ ∃ h x, Action.NamesGuarded x h cond actions b ∧
          m = ⟨h, x, events, state⟩) (ofBranch events state br) := by
      rintro ⟨cond, actions⟩ hbr
      have hguarded := inOrder_guarded events state cond actions fun a' ha' => inOrder_ofAction a'
      rw [ofBranch_mk]
      refine hguarded.inOrder.congr fun b m => ?_
      constructor
      · rintro ⟨_, _, hmk, hm⟩
        obtain ⟨rfl, rfl⟩ := Branch.mk.inj hmk
        exact hm
      · intro hm
        exact ⟨cond, actions, rfl, hm⟩
    rw [ofAction, ofBranches_eq_flatMap]
    refine (InOrder.flatMap branches hbranches).congr fun b m => ?_
    constructor
    · rintro ⟨h, x, hx, rfl⟩
      cases hx with
      | choose hk hb => exact ⟨_, _, _, rfl, hk, _, _, rfl, h, x, hb, rfl⟩
    · rintro ⟨k, b, _, rfl, hk, cond, actions, rfl, h, x, hb, rfl⟩
      exact ⟨h, x, .choose hk hb, rfl⟩
termination_by sizeOf a
decreasing_by
  have hin := List.sizeOf_lt_of_mem ha'
  have hbranch := List.sizeOf_lt_of_mem hbr
  simp only [Branch.mk.sizeOf_spec, Action.choose.sizeOf_spec] at *
  omega

theorem inOrder_ofActions (actions : List Action) : InOrder (· < ·) (fun b (m : Mention) =>
    ∃ k b' a, b = k :: b' ∧ actions[k]? = some a ∧
      ∃ h x, Action.Names x h a b' ∧ m = ⟨h, x, events, state⟩)
    (ofActions events state actions) := by
  rw [ofActions_eq_flatMap]
  exact InOrder.flatMap actions fun a _ => inOrder_ofAction events state a

/-! ## 3. Mentions in nodes -/

variable (incoming : List String)

/-- A named delay is mentioned for the events that lead to its state. -/
theorem inOrder_delay (event : Event) : InOrder (· < ·)
    (fun (b : List Nat) (m : Mention) => b = [] ∧ ∃ x st, event = .after (.named x) st ∧
      m = ⟨.delay, x, incoming, state⟩)
    (match event with
      | .after (.named name) _ => [⟨.delay, name, incoming, state⟩]
      | _ => []) := by
  split
  · refine (InOrder.singleton [] _).congr fun b m => ?_
    simp
  · next hno =>
    refine .nil ?_
    rintro b m ⟨-, x, st, hevent, -⟩
    exact hno x st hevent

theorem inOrder_ofTransition (t : Transition) : InOrder (· < ·)
    (fun b (m : Mention) => (∃ h x, Action.NamesGuarded x h t.cond t.actions b ∧
        m = ⟨h, x, [t.event.type], state⟩) ∨
      ∃ b', b = 2 :: b' ∧ b' = [] ∧ ∃ x st, t.event = .after (.named x) st ∧
        m = ⟨.delay, x, incoming, state⟩)
    (ofTransition incoming state t) := by
  have hguarded := inOrder_guarded [t.event.type] state t.cond t.actions
    fun a _ => inOrder_ofAction [t.event.type] state a
  exact (hguarded.append (inOrder_delay state incoming t.event)).inOrder

/-- **The mentions in a node are those where names stand in it**, each for the events of its
occasion. -/
theorem inOrder_ofNode (n : Node) : InOrder (· < ·)
    (fun b (m : Mention) => ∃ h x o, n.Names x h o b ∧ m = ⟨h, x, o.events incoming, n.dotted⟩)
    (ofNode incoming n) := by
  have htransitions := InOrder.flatMap n.transitions fun t _ =>
    inOrder_ofTransition n.dotted incoming t
  have hexit := inOrder_ofActions [] n.dotted n.exit
  have hentry := inOrder_ofActions incoming n.dotted n.entry
  have hservices := InOrder.flatMap n.invocations fun s _ =>
    inOrder_ofRef incoming n.dotted .service s.src
  have hactivities := InOrder.flatMap n.activities fun r _ =>
    inOrder_ofRef incoming n.dotted .activity r
  have hparts := ((((PartsInOrder.first htransitions).append hexit).append hentry).append
    hservices).append hactivities
  refine hparts.inOrder.congr fun b m => ?_
  constructor
  · rintro ⟨h, x, o, hx, rfl⟩
    cases hx with
    | transition hk hb =>
      exact Or.inl <| Or.inl <| Or.inl <| Or.inl
        ⟨_, rfl, _, _, _, rfl, hk, Or.inl ⟨h, x, hb, rfl⟩⟩
    | delay hk ht =>
      exact Or.inl <| Or.inl <| Or.inl <| Or.inl
        ⟨_, rfl, _, _, _, rfl, hk, Or.inr ⟨_, rfl, rfl, x, _, ht, rfl⟩⟩
    | exit hm ha =>
      exact Or.inl <| Or.inl <| Or.inl <| Or.inr ⟨_, rfl, _, _, _, rfl, hm, h, x, ha, rfl⟩
    | entry hm ha =>
      exact Or.inl <| Or.inl <| Or.inr ⟨_, rfl, _, _, _, rfl, hm, h, x, ha, rfl⟩
    | service hm hs => exact Or.inl <| Or.inr ⟨_, rfl, _, _, _, rfl, hm, rfl, x, hs, rfl⟩
    | activity hm => exact Or.inr ⟨_, rfl, _, _, _, rfl, hm, rfl, x, rfl, rfl⟩
  · rintro ((((⟨_, rfl, k, b, t, rfl, hk, ⟨h, x, hb, rfl⟩ | ⟨_, rfl, rfl, x, st, ht, rfl⟩⟩ |
      ⟨_, rfl, k, b, a, rfl, hk, h, x, ha, rfl⟩) |
      ⟨_, rfl, k, b, a, rfl, hk, h, x, ha, rfl⟩) |
      ⟨_, rfl, k, _, s, rfl, hk, rfl, x, hs, rfl⟩) |
      ⟨_, rfl, k, _, r, rfl, hk, rfl, x, rfl, rfl⟩)
    · exact ⟨h, x, _, .transition hk hb, rfl⟩
    · exact ⟨.delay, x, _, .delay hk ht, rfl⟩
    · exact ⟨h, x, _, .exit hk ha, rfl⟩
    · exact ⟨h, x, _, .entry hk ha, rfl⟩
    · exact ⟨.service, x, _, .service hk hs, rfl⟩
    · exact ⟨.activity, x, _, .activity hk, rfl⟩

/-- Names of the runtime begin with its word. -/
theorem isReserved_iff (m : Mention) :
    m.isReserved = true ↔ ∃ rest, m.name = reservedStart ++ rest := by
  rw [isReserved, List.isPrefixOf_iff_prefix]
  constructor
  · rintro ⟨rest, hrest⟩
    refine ⟨String.ofList rest, ?_⟩
    rw [← String.toList_inj, String.toList_append, String.toList_ofList, hrest]
  · rintro ⟨rest, hrest⟩
    refine ⟨rest.toList, ?_⟩
    rw [hrest, String.toList_append]

end Mention

/-- **The mentions of a graph are those at its sites**, names of the runtime apart, in the order of
the addresses. -/
theorem Graph.inOrder_mentions (g : Graph) : InOrder (· < ·)
    (fun a (m : Mention) => (∃ h x i n o, g.Site h x i n o a ∧
        m = ⟨h, x, o.events (g.sources i), n.dotted⟩) ∧ ∀ rest, m.name ≠ reservedStart ++ rest)
    g.mentions := by
  have hnodes := InOrder.flatMap_zipIdx (f := fun p => Mention.ofNode (g.sources p.2) p.1) g.nodes
    fun i n _ => Mention.inOrder_ofNode (g.sources i) n
  refine (hnodes.filter fun m => !m.isReserved).congr fun a m => ?_
  have hreserved : (!m.isReserved) = true ↔ ∀ rest, m.name ≠ reservedStart ++ rest := by
    rw [Bool.not_eq_true', ← Bool.not_eq_true, m.isReserved_iff, not_exists]
  rw [hreserved, and_congr_left_iff]
  intro _
  constructor
  · rintro ⟨h, x, i, n, o, ⟨b, rfl, hn, hx⟩, rfl⟩
    exact ⟨i, b, n, rfl, hn, h, x, o, hx, rfl⟩
  · rintro ⟨i, b, n, rfl, hn, h, x, o, hx, rfl⟩
    exact ⟨h, x, i, n, o, ⟨b, rfl, hn, hx⟩, rfl⟩

end Statechart
